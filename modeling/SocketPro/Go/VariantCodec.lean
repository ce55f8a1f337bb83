import SocketPro.Buffer.VariantRoundTrip
import SocketPro.Go.ObjectCodec
import Mathlib.Algebra.Order.Field.Rat
import Mathlib.Tactic.FieldSimp

/-!
# VARIANT values read in Go

The bytes of a `VARIANT` that the C++ writer appends, read by `LoadObject`. `Same v w` says that the
Go value `w` is the value of `v`: a number has the same memory, a currency or decimal the same
amount, a date the same time, a text the same 16-bit units, and an array the same elements.

* `loadObject_encode_iff` — **the value is understood** exactly when it is `Understood`: it is no
  array of variants, its currencies are not negative (but for the least one), its dates have the
  fields of a date, and the surrogates of its texts are paired;
* `speak_one_format_iff` — this, and the round trip of the Go values.
-/

namespace SocketPro.Go

open Bytes Machine Unicode Calendar Buffer

/-! ### Cells of an array -/

/-- `n` cells of `w` bytes. -/
def cells (w : ℕ) : ℕ → List UInt8 → List (List UInt8)
  | 0, _ => []
  | n + 1, raw => raw.take w :: cells w n (raw.drop w)

section

variable {w n : ℕ} {data : List UInt8}

@[simp] theorem length_cells : (cells w n data).length = n := by
  induction n generalizing data with
  | zero => rfl
  | succ n ih => rw [cells, List.length_cons, ih]

theorem length_drop_cell (h : data.length = (n + 1) * w) : (data.drop w).length = n * w := by
  rw [List.length_drop, h, Nat.add_mul, Nat.one_mul, Nat.add_sub_cancel]

theorem flatten_cells (h : data.length = n * w) : (cells w n data).flatten = data := by
  induction n generalizing data with
  | zero =>
    rw [Nat.zero_mul] at h
    rw [List.length_eq_zero_iff.1 h]
    rfl
  | succ n ih =>
    rw [cells, List.flatten_cons, ih (length_drop_cell h), List.take_append_drop]

theorem length_of_mem_cells (h : data.length = n * w) {raw : List UInt8}
    (hraw : raw ∈ cells w n data) : raw.length = w := by
  induction n generalizing data with
  | zero => exact absurd hraw List.not_mem_nil
  | succ n ih =>
    rcases List.mem_cons.1 hraw with rfl | hraw
    · rw [List.length_take, h, Nat.add_mul, Nat.one_mul]
      exact Nat.min_eq_left (Nat.le_add_left _ _)
    · exact ih (length_drop_cell h) hraw

theorem numbersOf_eq_map : numbersOf w n data =
    (cells w n data).map fun raw ↦ BitVec.ofNat (8 * w) (ofLE raw) := by
  induction n generalizing data with
  | zero => rfl
  | succ n ih => rw [numbersOf, ih, cells, List.map_cons]

/-- Single bytes. -/
theorem cells_one (h : data.length = n) : cells 1 n data = data.map fun b ↦ [b] := by
  induction n generalizing data with
  | zero =>
    rw [List.length_eq_zero_iff.1 h]
    rfl
  | succ n ih =>
    rcases data with - | ⟨b, data⟩
    · exact absurd h (Nat.succ_ne_zero n).symm
    · rw [cells, List.map_cons]
      exact congrArg _ (ih (Nat.succ.inj h))

end

/-- The bits of a memory. -/
theorem saveBits_ofLE {w : ℕ} {raw : List UInt8} (h : raw.length = w) :
    saveBits w (BitVec.ofNat (8 * w) (ofLE raw)) = raw := by
  have hlt : ofLE raw < 2 ^ (8 * w) := by
    have hle := ofLE_lt raw
    rwa [h, show (256 : ℕ) = 2 ^ 8 from rfl, ← Nat.pow_mul] at hle
  rw [saveBits, BitVec.toNat_ofNat, Nat.mod_eq_of_lt hlt, ← h, leBytes_ofLE]

/-! ### The same value -/

/-- The number type that a scalar is read as. -/
def num? : ScalarVT → Option Num
  | .I2 => some .int16 | .UI2 => some .uint16 | .I4 | .INT => some .int32
  | .UI4 | .UINT => some .uint32 | .I8 => some .int64 | .UI8 => some .uint64
  | .R4 => some .float32 | .R8 => some .float64
  | .I1 | .UI1 | .CY | .DATE | .BOOL | .DECIMAL => none

/-- The amount of a decimal. -/
def DECIMAL.amount (d : DECIMAL) : ℚ :=
  (if d.Sign = 0 then 1 else -1) * (d.Hi32.toNat * 2 ^ 64 + d.Lo64.toNat : ℕ) / 10 ^ d.Scale.toNat

/-- The memory of a decimal. -/
def DECIMAL.memory (d : DECIMAL) : List UInt8 :=
  saveBits 2 d.wReserved ++ (saveBits 1 d.Scale ++ (saveBits 1 d.Sign ++
    (saveBits 4 d.Hi32 ++ saveBits 8 d.Lo64)))

/-- The number of ten-thousandths that a currency is. -/
def currency (raw : List UInt8) : BitVec 64 := BitVec.ofNat 64 (ofLE raw)

/-- A scalar with the memory `raw` and a Go value are the same value. -/
def SameScalar (t : ScalarVT) (raw : List UInt8) : Value → Prop
  | .num n v => num? t = some n ∧ raw = saveBits n.size v
  | .int8 v => t = .I1 ∧ raw = saveBits 1 v
  | .byte v => t = .UI1 ∧ raw = saveBits 1 v
  | .bool b => t = .BOOL ∧ b = decide (ofLE raw ≠ 0)
  | .time x => t = .DATE ∧ (UDateTime.ofValue (ofLE raw)).time? = some x
  | .decimal d => t = .DECIMAL ∧ raw = d.memory ∨
      t = .CY ∧ d.amount = (currency raw).toInt / 10 ^ 4
  | _ => False

/-- A text and a Go value. -/
def SameText (s : Option (List UInt16)) : Value → Prop
  | .nil => s = none
  | .string g => s = some (encodeUTF16 (decodeUTF8 g)) ∧ ValidUTF8 g
  | _ => False

/-- The elements of a Go value that `LoadObject` returns for an array. -/
def Value.elements : Value → Option (List Value)
  | .AStr s => some (s.map fun b ↦ .int8 b.toBitVec)
  | .bytesPtr (some s) => some (s.map fun b ↦ .byte b.toBitVec)
  | .nums t ns => some (ns.map (.num t))
  | .bools bs => some (bs.map .bool)
  | .times ts => some (ts.map .time)
  | .decimals ds => some (ds.map .decimal)
  | .stringPtrs ss => some (ss.map fun s ↦ s.elim .nil .string)
  | .interfaces vs => some vs
  | _ => none

/-- A `VARIANT` and a Go value are the same value. -/
inductive Same : VARIANT → Value → Prop
  | empty : Same .empty .nil
  | null : Same .null .nil
  | scalar {t : ScalarVT} {raw : List UInt8} {w : Value} : SameScalar t raw w →
      Same (.scalar t raw) w
  | bstr {s : Option (List UInt16)} {w : Value} : SameText s w → Same (.bstr s) w
  | scalarArray {t : ScalarVT} {n : ℕ} {data : List UInt8} {w : Value} {ws : List Value} :
      w.elements = some ws → List.Forall₂ (SameScalar t) (cells t.size n data) ws →
      Same (.scalarArray t n data) w
  | bstrArray {ss : List (Option (List UInt16))} {w : Value} {ws : List Value} :
      w.elements = some ws → List.Forall₂ SameText ss ws → Same (.bstrArray ss) w
  | variantArray {vs : List VARIANT} {w : Value} {ws : List Value} :
      w.elements = some ws → List.Forall₂ Same vs ws → Same (.variantArray vs) w

/-! ### What is read -/

/-- The decimal with this memory. -/
def decimalOf (raw : List UInt8) : DECIMAL where
  wReserved := BitVec.ofNat 16 (ofLE (raw.take 2))
  Scale := BitVec.ofNat 8 (ofLE ((raw.drop 2).take 1))
  Sign := BitVec.ofNat 8 (ofLE ((raw.drop 3).take 1))
  Hi32 := BitVec.ofNat 32 (ofLE ((raw.drop 4).take 4))
  Lo64 := BitVec.ofNat 64 (ofLE (raw.drop 8))

/-- What `LoadObject` makes of a scalar. -/
def scalarValue (t : ScalarVT) (raw : List UInt8) : Value :=
  match t with
  | .I1 => .int8 (BitVec.ofNat 8 (ofLE raw))
  | .UI1 => .byte (BitVec.ofNat 8 (ofLE raw))
  | .I2 => .num .int16 (BitVec.ofNat 16 (ofLE raw))
  | .UI2 => .num .uint16 (BitVec.ofNat 16 (ofLE raw))
  | .I4 | .INT => .num .int32 (BitVec.ofNat 32 (ofLE raw))
  | .UI4 | .UINT => .num .uint32 (BitVec.ofNat 32 (ofLE raw))
  | .I8 => .num .int64 (BitVec.ofNat 64 (ofLE raw))
  | .UI8 => .num .uint64 (BitVec.ofNat 64 (ofLE raw))
  | .R4 => .num .float32 (BitVec.ofNat 32 (ofLE raw))
  | .R8 => .num .float64 (BitVec.ofNat 64 (ofLE raw))
  | .BOOL => .bool (decide (0 < ofLE raw))
  | .DATE => .time (loadDate (ofLE raw))
  | .DECIMAL => .decimal (decimalOf raw)
  | .CY => .decimal (cyDecimal (currency raw))

/-- What `LoadObject` makes of an array of scalars. -/
def arrayValue (t : ScalarVT) (n : ℕ) (data : List UInt8) : Value :=
  match t with
  | .I1 => .AStr data
  | .UI1 => .bytesPtr (some data)
  | .I2 => .nums .int16 (numbersOf 2 n data)
  | .UI2 => .nums .uint16 (numbersOf 2 n data)
  | .I4 | .INT => .nums .int32 (numbersOf 4 n data)
  | .UI4 | .UINT => .nums .uint32 (numbersOf 4 n data)
  | .I8 => .nums .int64 (numbersOf 8 n data)
  | .UI8 => .nums .uint64 (numbersOf 8 n data)
  | .R4 => .nums .float32 (numbersOf 4 n data)
  | .R8 => .nums .float64 (numbersOf 8 n data)
  | .BOOL => .bools ((cells 2 n data).map fun raw ↦ decide (0 < ofLE raw))
  | .DATE => .times ((cells 8 n data).map fun raw ↦ loadDate (ofLE raw))
  | .DECIMAL => .decimals ((cells 16 n data).map decimalOf)
  | .CY => .decimals ((cells 8 n data).map fun raw ↦ cyElement (currency raw))

/-- A number in memory. -/
theorem loadBits_raw {w : ℕ} {raw : List UInt8} (h : raw.length = w) :
    Decodes LIMIT (loadBits w) raw (BitVec.ofNat (8 * w) (ofLE raw)) :=
  (take_decodes_of_length h).map _

theorem memory_decimalOf {raw : List UInt8} (h : raw.length = 16) :
    (decimalOf raw).memory = raw := by
  have hsplit : raw.take 2 ++ ((raw.drop 2).take 1 ++ ((raw.drop 3).take 1 ++
      ((raw.drop 4).take 4 ++ raw.drop 8))) = raw := by
    rw [show raw.drop 8 = (raw.drop 4).drop 4 by rw [List.drop_drop], List.take_append_drop,
      show raw.drop 4 = (raw.drop 3).drop 1 by rw [List.drop_drop], List.take_append_drop,
      show raw.drop 3 = (raw.drop 2).drop 1 by rw [List.drop_drop], List.take_append_drop,
      List.take_append_drop]
  have h2 : (raw.take 2).length = 2 := by rw [List.length_take, h]; rfl
  have h1 : ((raw.drop 2).take 1).length = 1 := by rw [List.length_take, List.length_drop, h]; rfl
  have h1' : ((raw.drop 3).take 1).length = 1 := by rw [List.length_take, List.length_drop, h]; rfl
  have h4 : ((raw.drop 4).take 4).length = 4 := by rw [List.length_take, List.length_drop, h]; rfl
  have h8 : (raw.drop 8).length = 8 := by rw [List.length_drop, h]
  calc
    (decimalOf raw).memory
        = saveBits 2 (BitVec.ofNat 16 (ofLE (raw.take 2))) ++
            (saveBits 1 (BitVec.ofNat 8 (ofLE ((raw.drop 2).take 1))) ++
              (saveBits 1 (BitVec.ofNat 8 (ofLE ((raw.drop 3).take 1))) ++
                (saveBits 4 (BitVec.ofNat 32 (ofLE ((raw.drop 4).take 4))) ++
                  saveBits 8 (BitVec.ofNat 64 (ofLE (raw.drop 8)))))) := rfl
    _ = raw := by
      rw [saveBits_ofLE h2, saveBits_ofLE h1, saveBits_ofLE h1', saveBits_ofLE h4, saveBits_ofLE h8,
        hsplit]

theorem LoadDecimal_memory (d : DECIMAL) : Decodes LIMIT LoadDecimal d.memory d := by
  refine (loadBits_decodes 2 d.wReserved).bind ?_
  refine (loadBits_decodes 1 d.Scale).bind ?_
  refine (loadBits_decodes 1 d.Sign).bind ?_
  refine (loadBits_decodes 4 d.Hi32).bind ?_
  exact (loadBits_decodes 8 d.Lo64).map _

theorem LoadDecimal_raw {raw : List UInt8} (h : raw.length = 16) :
    Decodes LIMIT LoadDecimal raw (decimalOf raw) := by
  have hread := LoadDecimal_memory (decimalOf raw)
  rwa [memory_decimalOf h] at hread

theorem LoadBool_raw {raw : List UInt8} (h : raw.length = 2) :
    Decodes LIMIT LoadBool raw (decide (0 < ofLE raw)) :=
  ((take_decodes_of_length h).map ofLE).map _

theorem LoadDate_raw {raw : List UInt8} (h : raw.length = 8) :
    Decodes LIMIT LoadDate raw (loadDate (ofLE raw)) :=
  ((take_decodes_of_length h).map ofLE).map _

/-- A scalar is read as `scalarValue`. -/
theorem loadValue_scalar (t : ScalarVT) {raw : List UInt8} (h : raw.length = t.size) :
    Decodes LIMIT (loadValue t.vt) raw (scalarValue t raw) := by
  cases t with
  | BOOL => exact (LoadBool_raw h).map Value.bool
  | DATE => exact (LoadDate_raw h).map Value.time
  | DECIMAL => exact (LoadDecimal_raw h).map Value.decimal
  | CY => exact (loadBits_raw h).map fun cy ↦ Value.decimal (cyDecimal cy)
  | _ => exact (loadBits_raw h).map _

section

variable {n w : ℕ} {data : List UInt8}

/-- The memory of numbers behind their count. -/
theorem loadNumbers_raw (hn : n < 2 ^ 32) (hdata : data.length = n * w) (hfit : n * w < 2 ^ 32) :
    Decodes LIMIT (loadNumbers w) (leBytes 4 n ++ data) (numbersOf w n data) := by
  refine (LoadUInt_decodes hn).bind ?_
  rcases Nat.eq_zero_or_pos n with rfl | hpos
  · rw [Nat.zero_mul] at hdata
    rw [List.length_eq_zero_iff.1 hdata]
    exact Decodes.pure []
  · rw [if_pos hpos, Nat.mod_eq_of_lt hfit, ← hdata]
    exact (take_decodes data).map _

/-- Cells that are read one by one behind their count. -/
theorem loadLoop_cells {α : Type} {g : Reader α} {r : List UInt8 → α} (hn : n < 2 ^ 32)
    (hdata : data.length = n * w)
    (h : ∀ raw : List UInt8, raw.length = w → Decodes LIMIT g raw (r raw)) :
    Decodes LIMIT (loadLoop g) (leBytes 4 n ++ data) ((cells w n data).map r) := by
  refine (LoadUInt_decodes hn).bind ?_
  have hread : Decodes LIMIT (repeatRead g (cells w n data).length) ((cells w n data).flatMap id)
      ((cells w n data).map r) :=
    repeatRead_decodes fun raw hraw ↦ h raw (length_of_mem_cells hdata hraw)
  rwa [length_cells, List.flatMap_id, flatten_cells hdata] at hread

/-- Bytes behind their count. -/
theorem LoadAString_raw (hdata : data.length = n) (hfit : n < STRING_NULL_END) :
    Decodes LIMIT LoadAString (leBytes 4 n ++ data) (some data) := by
  subst hdata
  exact decodes_prefixed data some (pure none) hfit

end

/-- An array of scalars is read as `arrayValue`. -/
theorem loadValue_scalarArray (t : ScalarVT) {n : ℕ} {data : List UInt8}
    (hdata : data.length = n * t.size) (hfit : n * t.size < STRING_NULL_END) :
    Decodes LIMIT (loadValue (Varray + t.vt)) (leBytes 4 n ++ data) (arrayValue t n data) := by
  have hpos : 0 < t.size := by cases t <;> decide
  have hfit' : n * t.size < 2 ^ 32 := lt_trans hfit (by decide)
  have hn : n < 2 ^ 32 := lt_of_le_of_lt (Nat.le_mul_of_pos_right n hpos) hfit'
  cases t with
  | I1 =>
    exact (LoadAString_raw (hdata.trans (Nat.mul_one n)) (Nat.mul_one n ▸ hfit)).map
      fun s : Option GoString ↦ s.elim Value.nil Value.AStr
  | UI1 =>
    exact (LoadAString_raw (hdata.trans (Nat.mul_one n)) (Nat.mul_one n ▸ hfit)).map Value.bytesPtr
  | BOOL => exact (loadLoop_cells hn hdata fun raw ↦ LoadBool_raw).map Value.bools
  | DATE => exact (loadLoop_cells hn hdata fun raw ↦ LoadDate_raw).map Value.times
  | DECIMAL => exact (loadLoop_cells hn hdata fun raw ↦ LoadDecimal_raw).map Value.decimals
  | CY =>
    have hmap : arrayValue .CY n data =
        .decimals (((cells 8 n data).map currency).map cyElement) := by
      rw [List.map_map]
      rfl
    rw [hmap]
    exact (loadLoop_cells hn hdata fun raw ↦ loadBits_raw).map
      fun cys ↦ Value.decimals (cys.map cyElement)
  | _ => exact (loadNumbers_raw hn hdata hfit').map _

/-! ### When it is the same value -/

/-- The text that `LoadString` returns. -/
def textValue (s : Option (List UInt16)) : Option GoString :=
  s.map fun us ↦ encodeUTF8 (decodeUTF16 us)

theorem LoadString_encodeBSTR {s : Option (List UInt16)} (h : (encodeBSTR s).length < LIMIT) :
    Decodes LIMIT LoadString (encodeBSTR s) (textValue s) := by
  rcases s with - | us
  · rw [encodeBSTR_none]
    exact LoadString_null
  · rw [encodeBSTR_some] at h ⊢
    rw [List.length_append, length_leBytes, length_utf16Bytes] at h
    refine LoadString_units ?_
    show _ < 0xffffffff
    have hlimit : LIMIT = 0xffffffff + 1 := rfl
    omega

/-- A text whose surrogates are paired. -/
def TextUnderstood : Option (List UInt16) → Prop
  | none => True
  | some us => Paired us

theorem sameText_iff (s : Option (List UInt16)) :
    SameText s ((textValue s).elim .nil .string) ↔ TextUnderstood s := by
  rcases s with - | us
  · exact iff_of_true rfl trivial
  · show some us = some (encodeUTF16 (decodeUTF8 (encodeUTF8 (decodeUTF16 us)))) ∧
      ValidUTF8 (encodeUTF8 (decodeUTF16 us)) ↔ Paired us
    rw [decodeUTF8_encodeUTF8, Option.some.injEq, ← encodeUTF16_decodeUTF16_iff]
    exact ⟨fun h ↦ h.1.symm, fun h ↦ ⟨h.symm, _, rfl⟩⟩

/-- The currencies whose decimal has the right amount, and the words that are dates. -/
def ScalarUnderstood (t : ScalarVT) (raw : List UInt8) : Prop :=
  match t with
  | .CY => 0 ≤ (currency raw).toInt ∨ (currency raw).toInt = -2 ^ 63
  | .DATE => (UDateTime.ofValue (ofLE raw)).Valid
  | _ => True

/-- **The sign of a currency is given, but its low word is not its absolute value.** -/
theorem amount_cyDecimal_iff (cy : BitVec 64) :
    (cyDecimal cy).amount = cy.toInt / 10 ^ 4 ↔ 0 ≤ cy.toInt ∨ cy.toInt = -2 ^ 63 := by
  have hten : ((10 : ℚ) ^ 4) ≠ 0 := by norm_num
  have hlt := cy.isLt
  have htoInt := BitVec.toInt_eq_msb_cond cy
  cases hmsb : cy.msb with
  | false =>
    rw [hmsb, if_neg Bool.false_ne_true] at htoInt
    have hamount : (cyDecimal cy).amount = (cy.toNat : ℚ) / 10 ^ 4 := by
      simp [DECIMAL.amount, cyDecimal, hmsb]
    rw [hamount, htoInt]
    exact iff_of_true (by push_cast; rfl) (.inl (Int.natCast_nonneg _))
  | true =>
    rw [hmsb, if_pos rfl] at htoInt
    have hamount : (cyDecimal cy).amount = ((-(cy.toNat : ℤ) : ℤ) : ℚ) / 10 ^ 4 := by
      simp [DECIMAL.amount, cyDecimal, hmsb]
    rw [hamount, div_left_inj' hten, Int.cast_inj, htoInt]
    push_cast
    omega

theorem amount_cyElement (cy : BitVec 64) : (cyElement cy).amount = (cyDecimal cy).amount := by
  rw [cyElement]
  split
  · rfl
  · next h =>
    rw [not_not.1 h]
    simp [DECIMAL.amount, cyDecimal]

theorem sameScalar_num {t : ScalarVT} {n : Num} {raw : List UInt8} (ht : num? t = some n)
    (hraw : raw.length = n.size) :
    SameScalar t raw (.num n (BitVec.ofNat (8 * n.size) (ofLE raw))) :=
  ⟨ht, (saveBits_ofLE hraw).symm⟩

theorem sameScalar_bool {raw : List UInt8} {b : Bool} (h : b = decide (0 < ofLE raw)) :
    SameScalar .BOOL raw (.bool b) := by
  refine ⟨rfl, ?_⟩
  rw [h]
  exact decide_eq_decide.2 Nat.pos_iff_ne_zero

theorem sameScalar_time_iff {raw : List UInt8} (hraw : raw.length = 8) :
    SameScalar .DATE raw (.time (loadDate (ofLE raw))) ↔ ScalarUnderstood .DATE raw := by
  have hlt := ofLE_lt raw
  rw [hraw] at hlt
  exact (and_iff_right rfl).trans (loadDate_eq_time?_iff hlt)

theorem sameScalar_cy_iff {raw : List UInt8} {d : DECIMAL}
    (hd : d.amount = (cyDecimal (currency raw)).amount) :
    SameScalar .CY raw (.decimal d) ↔ ScalarUnderstood .CY raw := by
  rw [ScalarUnderstood, ← amount_cyDecimal_iff, ← hd]
  constructor
  · rintro (⟨h, -⟩ | ⟨-, h⟩)
    · exact nomatch h
    · exact h
  · exact fun h ↦ .inr ⟨rfl, h⟩

theorem sameScalar_iff (t : ScalarVT) {raw : List UInt8} (hraw : raw.length = t.size) :
    SameScalar t raw (scalarValue t raw) ↔ ScalarUnderstood t raw := by
  cases t with
  | BOOL => exact iff_of_true (sameScalar_bool rfl) trivial
  | DATE => exact sameScalar_time_iff hraw
  | DECIMAL => exact iff_of_true (.inl ⟨rfl, (memory_decimalOf hraw).symm⟩) trivial
  | CY => exact sameScalar_cy_iff rfl
  | I1 => exact iff_of_true ⟨rfl, (saveBits_ofLE hraw).symm⟩ trivial
  | UI1 => exact iff_of_true ⟨rfl, (saveBits_ofLE hraw).symm⟩ trivial
  | _ => exact iff_of_true (sameScalar_num rfl hraw) trivial

/-- What an element of an array of scalars is read as. -/
def elementValue (t : ScalarVT) (raw : List UInt8) : Value :=
  match t with
  | .CY => .decimal (cyElement (currency raw))
  | t => scalarValue t raw

theorem sameElement_iff (t : ScalarVT) {raw : List UInt8} (hraw : raw.length = t.size) :
    SameScalar t raw (elementValue t raw) ↔ ScalarUnderstood t raw := by
  cases t with
  | CY => exact sameScalar_cy_iff (amount_cyElement _)
  | _ => exact sameScalar_iff _ hraw

theorem map_cells_one {n : ℕ} {data : List UInt8} (h : data.length = n) (f : BitVec 8 → Value) :
    (cells 1 n data).map (fun raw ↦ f (BitVec.ofNat 8 (ofLE raw))) =
      data.map fun b ↦ f b.toBitVec := by
  rw [cells_one h, List.map_map]
  refine List.map_congr_left fun b _ ↦ congrArg f ?_
  have hb : ofLE [b] = b.toBitVec.toNat := rfl
  rw [hb, BitVec.ofNat_toNat, BitVec.setWidth_eq]

theorem elements_nums {t : Num} {n : ℕ} {data : List UInt8} :
    (Value.nums t (numbersOf t.size n data)).elements =
      some ((cells t.size n data).map fun raw ↦ .num t (BitVec.ofNat (8 * t.size) (ofLE raw))) := by
  rw [Value.elements, numbersOf_eq_map, List.map_map]
  rfl

/-- An array is read as its elements. -/
theorem elements_arrayValue (t : ScalarVT) {n : ℕ} {data : List UInt8}
    (hdata : data.length = n * t.size) :
    (arrayValue t n data).elements = some ((cells t.size n data).map (elementValue t)) := by
  cases t with
  | I1 => exact congrArg some (map_cells_one (hdata.trans (Nat.mul_one n)) .int8).symm
  | UI1 => exact congrArg some (map_cells_one (hdata.trans (Nat.mul_one n)) .byte).symm
  | BOOL => exact congrArg some List.map_map
  | DATE => exact congrArg some List.map_map
  | DECIMAL => exact congrArg some List.map_map
  | CY => exact congrArg some List.map_map
  | _ => exact elements_nums

/-- Elements that are the same one by one. -/
theorem forall₂_map_iff {α β : Type} {R : α → β → Prop} {f : α → β} {as : List α} {P : α → Prop}
    (h : ∀ a ∈ as, R a (f a) ↔ P a) : List.Forall₂ R as (as.map f) ↔ ∀ a ∈ as, P a := by
  rw [List.forall₂_map_right_iff, List.forall₂_same]
  exact forall₂_congr h

/-- The values that are understood. -/
def Understood : VARIANT → Prop
  | .scalar t raw => ScalarUnderstood t raw
  | .bstr s => TextUnderstood s
  | .scalarArray t n data => ∀ raw ∈ cells t.size n data, ScalarUnderstood t raw
  | .bstrArray ss => ∀ s ∈ ss, TextUnderstood s
  | .variantArray _ => False
  | _ => True

/-- What `LoadObject` makes of a value that is no array of variants. -/
def variantValue : VARIANT → Value
  | .scalar t raw => scalarValue t raw
  | .bstr s => (textValue s).elim .nil .string
  | .scalarArray t n data => arrayValue t n data
  | .bstrArray ss => .stringPtrs (ss.map textValue)
  | _ => .nil

theorem same_variantValue_iff {v : VARIANT} (hv : v.WellFormed)
    (hne : ∀ vs, v ≠ .variantArray vs) : Same v (variantValue v) ↔ Understood v := by
  cases hv with
  | empty => exact iff_of_true .empty trivial
  | null => exact iff_of_true .null trivial
  | scalar hraw =>
    rw [Understood, ← sameScalar_iff _ hraw]
    exact ⟨fun h ↦ by cases h with | scalar h => exact h, .scalar⟩
  | bstr hs =>
    rw [Understood, ← sameText_iff]
    exact ⟨fun h ↦ by cases h with | bstr h => exact h, .bstr⟩
  | @scalarArray t n data hn hdata =>
    have helements := elements_arrayValue t hdata
    have hcells := forall₂_map_iff (R := SameScalar t) (f := elementValue t)
      fun raw hraw ↦ sameElement_iff t (length_of_mem_cells hdata hraw)
    rw [Understood, ← hcells]
    constructor
    · intro h
      cases h with
      | scalarArray hws h =>
        rw [show variantValue (.scalarArray t n data) = arrayValue t n data from rfl, helements,
          Option.some.injEq] at hws
        rwa [hws]
    · exact .scalarArray helements
  | @bstrArray ss hlen hss =>
    have helements : (variantValue (.bstrArray ss)).elements =
        some (ss.map fun s ↦ (textValue s).elim .nil .string) := congrArg some List.map_map
    have htexts := forall₂_map_iff (R := SameText) fun s (_ : s ∈ ss) ↦ sameText_iff s
    rw [Understood, ← htexts]
    constructor
    · intro h
      cases h with
      | bstrArray hws h =>
        rw [helements, Option.some.injEq] at hws
        rwa [hws]
    · exact .bstrArray helements
  | @variantArray vs => exact absurd rfl (hne vs)

/-! ### Reading what the writer has written -/

theorem arrayTag_lt (t : ScalarVT) : Varray + t.vt < 2 ^ 16 := by
  cases t <;> decide

theorem flatMap_encodeBSTR (ss : List (Option (List UInt16))) :
    (ss.flatMap bstrPieces).flatten = ss.flatMap encodeBSTR := by
  induction ss with
  | nil => rfl
  | cons s ss ih =>
    rw [List.flatMap_cons, List.flatten_append, ih, List.flatMap_cons]
    rfl

/-- **What `LoadObject` makes of the bytes of a value** that is no array of variants. -/
theorem LoadObject_encode {v : VARIANT} (hv : v.WellFormed) (hne : ∀ vs, v ≠ .variantArray vs)
    (hlen : v.encode.length < LIMIT) : Decodes LIMIT LoadObject v.encode (variantValue v) := by
  have hlimit : LIMIT = 0xffffffff + 1 := rfl
  cases hv with
  | empty =>
    exact LoadObject_tag Vempty (b := []) (by decide) (Decodes.pure _)
  | null =>
    exact LoadObject_tag Vnull (b := []) (by decide) (Decodes.pure _)
  | @scalar t raw hraw =>
    have henc : (VARIANT.scalar t raw).encode = SaveUShort t.vt ++ raw := by
      simp [VARIANT.encode, VARIANT.pieces, SaveUShort]
    rw [henc]
    exact LoadObject_tag t.vt (lt_of_le_of_lt (Nat.le_add_left _ _) (arrayTag_lt t))
      (loadValue_scalar t hraw)
  | @bstr s hs =>
    have henc : (VARIANT.bstr s).encode = SaveUShort Vutf16 ++ encodeBSTR s := rfl
    rw [henc] at hlen ⊢
    exact LoadObject_tagged Vutf16 (fun s : Option GoString ↦ s.elim .nil .string)
      (by decide) (LoadString_encodeBSTR (length_of_tagged hlen)) rfl
  | @scalarArray t n data hn hdata =>
    rw [encode_scalarArray t hdata] at hlen ⊢
    rw [List.length_append, List.length_append, length_leBytes, length_leBytes, hdata] at hlen
    refine LoadObject_tag (Varray + t.vt) (arrayTag_lt t) (loadValue_scalarArray t hdata ?_)
    show n * t.size < 0xffffffff
    omega
  | @bstrArray ss hcount hss =>
    rw [encode_bstrArray, flatMap_encodeBSTR] at hlen ⊢
    refine LoadObject_tagged (Varray + Vutf16) .stringPtrs (by decide) ?_ rfl
    refine (LoadUInt_decodes hcount).bind (repeatRead_decodes fun s hs ↦ ?_)
    refine LoadString_encodeBSTR (lt_of_le_of_lt (flatMap_length_le hs) ?_)
    rw [List.length_append, List.length_append] at hlen
    omega
  | @variantArray vs => exact absurd rfl (hne vs)

/-- **A value is understood**: `LoadObject` returns the same value, and leaves what follows. -/
theorem loadObject_encode_iff {v : VARIANT} {rest : List UInt8} (hv : v.WellFormed)
    (hlen : (v.encode ++ rest).length < LIMIT) :
    (∃ w, LoadObject (v.encode ++ rest) = .ok w rest ∧ Same v w) ↔ Understood v := by
  by_cases hne : ∃ vs, v = .variantArray vs
  · obtain ⟨vs, rfl⟩ := hne
    rw [encode_variantArray, List.append_assoc] at hlen ⊢
    have hraise := LoadObject_raise (by decide) hlen
    refine iff_of_false (fun ⟨w, hw, _⟩ ↦ ?_) id
    exact nomatch hraise.symm.trans hw
  · have hne' : ∀ vs, v ≠ .variantArray vs := fun vs hvs ↦ hne ⟨vs, hvs⟩
    have hbytes : v.encode.length < LIMIT := by
      rw [List.length_append] at hlen
      omega
    rw [LoadObject_encode hv hne' hbytes rest hlen, ← same_variantValue_iff hv hne']
    constructor
    · rintro ⟨w, hw, hsame⟩
      injection hw with hw
      rwa [hw]
    · exact fun h ↦ ⟨_, rfl, h⟩

/-- **Two languages, one format.** A Go value that is written comes back exactly if it is
`Restorable`; a `VARIANT` that the C++ writer appends is read as the same value exactly if it is
`Understood`. -/
theorem speak_one_format_iff (x : Value) (v : VARIANT) :
    (∀ bytes rest : List UInt8, SaveObject x = some bytes → (bytes ++ rest).length < LIMIT →
      (LoadObject (bytes ++ rest) = .ok x.retype rest ↔ Restorable x)) ∧
    (v.WellFormed → v.encode.length < LIMIT → ∀ (su e e' : CUQueue) (bytes rest : List UInt8),
      pushVariant su v e = .ok () e' → e'.content = e.content ++ bytes →
      (bytes ++ rest).length < LIMIT →
      ((∃ w, LoadObject (bytes ++ rest) = .ok w rest ∧ Same v w) ↔ Understood v)) := by
  refine ⟨fun bytes rest h hlen ↦ loadObject_saveObject_iff h hlen, ?_⟩
  intro hv hencode su e e' bytes rest hpush hbytes hlen
  rw [content_of_push hv hencode hpush] at hbytes
  obtain rfl : v.encode = bytes := List.append_cancel_left hbytes
  exact loadObject_encode_iff hv hlen

/-- Two texts written in Go, and seven ten-thousandths written in C++. -/
theorem speak_one_format_texts_currency :
    LoadObject [8, 32, 2, 0, 0, 0, 2, 0, 0, 0, 65, 0, 0, 0, 0, 0, 9] =
        .ok (.stringPtrs [some [65], some []]) [9] ∧
      ∃ w, LoadObject [6, 0, 7, 0, 0, 0, 0, 0, 0, 0, 9] = .ok w [9] ∧
        Same (.scalar .CY [7, 0, 0, 0, 0, 0, 0, 0]) w := by
  obtain ⟨hgo, hcpp⟩ := speak_one_format_iff (.strings [[65], []])
    (.scalar .CY [7, 0, 0, 0, 0, 0, 0, 0])
  refine ⟨(hgo [8, 32, 2, 0, 0, 0, 2, 0, 0, 0, 65, 0, 0, 0, 0, 0] [9] (by decide +kernel)
    (by decide)).2 fun s hs ↦ ?_, ?_⟩
  · rcases List.mem_cons.1 hs with rfl | hs
    · exact ⟨⟨['A'], by decide +kernel⟩, by decide +kernel⟩
    · obtain rfl := List.mem_singleton.1 hs
      exact ⟨⟨[], rfl⟩, by decide +kernel⟩
  · exact (hcpp (.scalar rfl) (by decide) (bufferOf [] (by decide)) (bufferOf [1] (by decide))
      (bufferOf [1, 6, 0, 7, 0, 0, 0, 0, 0, 0, 0] (by decide)) [6, 0, 7, 0, 0, 0, 0, 0, 0, 0] [9]
      (by decide +kernel) rfl (by decide)).2 (.inl (by decide))

/-- A slice of interfaces with one number is written and not read; and a ten-thousandth less than
nothing is read as a decimal of another amount. -/
theorem not_speak_one_format :
    (¬ ∀ (x : Value) (bytes rest : List UInt8), SaveObject x = some bytes →
      (bytes ++ rest).length < LIMIT → LoadObject (bytes ++ rest) = .ok x.retype rest) ∧
    ¬ ∀ (su e e' : CUQueue) (v : VARIANT) (bytes rest : List UInt8), v.WellFormed →
      v.encode.length < LIMIT → pushVariant su v e = .ok () e' → e'.content = e.content ++ bytes →
      (bytes ++ rest).length < LIMIT →
      ∃ w, LoadObject (bytes ++ rest) = .ok w rest ∧ Same v w := by
  constructor
  · intro h
    have hread := h (.interfaces [.num .int32 1]) [12, 32, 1, 0, 0, 0, 3, 0, 1, 0, 0, 0] []
      (by decide +kernel) (by decide)
    exact nomatch (LoadObject_raise (by decide) (by decide)).symm.trans hread
  · intro h
    obtain ⟨w, hw, hsame⟩ := h (bufferOf [] (by decide)) (bufferOf [] (by decide))
      (bufferOf [6, 0, 255, 255, 255, 255, 255, 255, 255, 255] (by decide))
      (.scalar .CY [255, 255, 255, 255, 255, 255, 255, 255])
      [6, 0, 255, 255, 255, 255, 255, 255, 255, 255] [] (.scalar rfl) (by decide)
      (by decide +kernel) rfl (by decide)
    have hcy : VARIANT.WellFormed (.scalar .CY [255, 255, 255, 255, 255, 255, 255, 255]) :=
      .scalar rfl
    have hlen : (VARIANT.encode (.scalar .CY [255, 255, 255, 255, 255, 255, 255, 255]) ++
        []).length < LIMIT := by decide
    have hunderstood := (loadObject_encode_iff hcy hlen).1 ⟨w, hw, hsame⟩
    rcases hunderstood with hpos | hleast
    · exact absurd hpos (by decide)
    · exact absurd hleast (by decide)

end SocketPro.Go
