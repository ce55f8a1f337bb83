import SocketPro.Python.ObjectRoundTrip
import SocketPro.Buffer.UDateTime
import SocketPro.Buffer.VariantRoundTrip

/-!
# What `LoadObject` makes of the values of C++

`Is` says which object is the value of a `VARIANT`, and `PythonReads` for which values `LoadObject`
makes it from the bytes that `CUQueue::Push` appends in C++. The proof goes along the value: an
element of an array is read as a value without its type (`scalar_returnsIff`).

**What is not read**: an amount of money below zero, because `LoadObject` reads its eight bytes
without a sign; a decimal with fewer digits than places; a date that Python does not have, or with
more than microseconds; a text that is none.
-/

namespace SocketPro.Python

open Bytes Unicode Calendar Machine
open Buffer (VARIANT ScalarVT UDateTime encodeBSTR pushVariant)

/-! ### Bytes of a number -/

theorem loadNat_raw (raw : List UInt8) : Reads (loadNat raw.length) raw (ofLE raw) := fun rest ↦ by
  rw [loadNat, Effect.bind_ok (load_reads raw rest)]
  rfl

theorem loadInt_raw (raw : List UInt8) : Reads (loadInt raw.length) raw (signedLE raw) :=
  fun rest ↦ by
    rw [loadInt, Effect.bind_ok (load_reads raw rest)]
    rfl

/-- The elements of an array, each of so many bytes. -/
def chunks (width : ℕ) : ℕ → List UInt8 → List (List UInt8)
  | 0, _ => []
  | n + 1, bytes => bytes.take width :: chunks width n (bytes.drop width)

theorem length_chunks (width n : ℕ) (bytes : List UInt8) : (chunks width n bytes).length = n := by
  induction n generalizing bytes with
  | zero => rfl
  | succ n ih => rw [chunks, List.length_cons, ih]

theorem chunks_of_length {width n : ℕ} {bytes : List UInt8} (h : bytes.length = n * width) :
    (chunks width n bytes).flatMap id = bytes ∧
      ∀ raw ∈ chunks width n bytes, raw.length = width := by
  induction n generalizing bytes with
  | zero =>
    rw [Nat.zero_mul, List.length_eq_zero_iff] at h
    subst h
    exact ⟨rfl, List.forall_mem_nil _⟩
  | succ n ih =>
    rw [Nat.succ_mul] at h
    obtain ⟨hjoin, hall⟩ := @ih (bytes.drop width) (by rw [List.length_drop]; omega)
    refine ⟨?_, List.forall_mem_cons.2 ⟨?_, hall⟩⟩
    · rw [chunks, List.flatMap_cons, hjoin]
      exact List.take_append_drop width bytes
    · rw [List.length_take]
      omega

theorem eq_leBytes_append {w : ℕ} {bytes : List UInt8} (h : w ≤ bytes.length) :
    bytes = leBytes w (ofLE (bytes.take w)) ++ bytes.drop w := by
  have htake : leBytes (bytes.take w).length (ofLE (bytes.take w)) = bytes.take w := leBytes_ofLE _
  rw [List.length_take_of_le h] at htake
  rw [htake, List.take_append_drop]

theorem nonneg_signedLE_iff (raw : List UInt8) : 0 ≤ signedLE raw ↔ signedLE raw = ofLE raw := by
  have hlt := ofLE_lt raw
  rw [signedLE]
  split_ifs with hhalf
  · exact iff_of_true (Int.natCast_nonneg _) rfl
  · have hpow : ((256 ^ raw.length : ℕ) : ℤ) = 256 ^ raw.length := by push_cast; rfl
    rw [← hpow]
    omega

/-! ### Texts -/

/-- The bytes of a text come back, and others are none. -/
theorem decode_returnsIff {encode : List Char → List UInt8} {decode? : List UInt8 → Option (List Char)}
    (hnil : encode [] = []) (h : ∀ bytes cs, decode? bytes = some cs ↔ encode cs = bytes)
    (bytes : List UInt8) (hlength : bytes.length < 0xffffffff) :
    ReturnsIff (∃ cs, encode cs = bytes)
      (loadSized (fun bytes ↦ do return .text (← orRaise .unicode (decode? bytes))) (.text []))
      (leBytes 4 bytes.length ++ bytes) fun o ↦ ∃ cs, encode cs = bytes ∧ o = .text cs := by
  have hmake : ReturnsIff (∃ cs, encode cs = bytes)
      (do return .text (← orRaise .unicode (decode? bytes)) : Load Obj) []
      fun o ↦ ∃ cs, encode cs = bytes ∧ o = .text cs := by
    refine ReturnsIff.map ((orRaise_returnsIff .unicode (decode? bytes)
      fun cs ↦ ∃ cs', encode cs' = bytes ∧ Obj.text cs = .text cs').congr ?_)
    constructor
    · rintro ⟨cs, hcs⟩
      exact ⟨cs, (h bytes cs).2 hcs, cs, hcs, rfl⟩
    · rintro ⟨cs, hcs, -⟩
      exact ⟨cs, (h bytes cs).1 hcs⟩
  have hempty : bytes = [] →
      (do return .text (← orRaise .unicode (decode? bytes)) : Load Obj) = pure (.text []) := by
    rintro rfl
    rw [(h [] []).2 hnil]
    rfl
  have hnone : ¬ ∃ cs, encode cs = bytes ∧ Obj.none = .text cs := by
    rintro ⟨cs, -, hcs⟩
    cases hcs
  exact (loadSized_returnsIff _ _ (hlength.trans (by decide)) hempty hnone hmake).congr
    (and_iff_right hlength).symm

theorem decodeUTF8?_eq_some (bytes : List UInt8) (cs : List Char) :
    decodeUTF8? bytes = some cs ↔ encodeUTF8 cs = bytes := by
  constructor
  · intro h
    rw [decodeUTF8?] at h
    split_ifs at h with hvalid
    exact Option.some.inj h ▸ hvalid
  · rintro rfl
    exact decodeUTF8?_encode cs

theorem decodeUTF16?_eq_some (bytes : List UInt8) (cs : List Char) :
    decodeUTF16? bytes = some cs ↔ utf16Bytes (encodeUTF16 cs) = bytes := by
  constructor
  · intro h
    rw [decodeUTF16?] at h
    split_ifs at h with hvalid
    exact Option.some.inj h ▸ hvalid
  · rintro rfl
    exact decodeUTF16?_encode cs

/-- The object is the text of the units, or nothing. -/
def BSTRIs (s : Option (List UInt16)) (o : Obj) : Prop :=
  match s with
  | none => o = .none
  | some us => ∃ cs, encodeUTF16 cs = us ∧ o = .text cs

/-- The units are those of a text. -/
def BSTRReads (s : Option (List UInt16)) : Prop := ∀ us, s = some us → Paired us

theorem bstr_returnsIff {s : Option (List UInt16)} (hlength : (encodeBSTR s).length < 2 ^ 32) :
    ReturnsIff (BSTRReads s) LoadString (encodeBSTR s) (BSTRIs s) := by
  cases s with
  | none =>
    have hread : Reads LoadString (encodeBSTR none) .none := fun rest ↦ by
      rw [Buffer.encodeBSTR_none, LoadString, loadSized,
        Effect.bind_ok (loadNat_reads _ (n := 0xffffffff) (by decide) rest)]
      rfl
    exact hread.returnsIff.congr (iff_of_true nofun rfl)
  | some us =>
    rw [Buffer.encodeBSTR_some, ← length_utf16Bytes] at hlength ⊢
    rw [List.length_append, length_leBytes] at hlength
    have hinj (us' : List UInt16) : utf16Bytes us' = utf16Bytes us ↔ us' = us := by
      refine ⟨fun h ↦ ?_, congrArg _⟩
      rw [← utf16Units_utf16Bytes us', h, utf16Units_utf16Bytes]
    have htext := decode_returnsIff rfl decodeUTF16?_eq_some (utf16Bytes us) (by omega)
    simp only [hinj] at htext
    refine htext.congr ⟨fun h ↦ ⟨_, (encodeUTF16_decodeUTF16_iff us).2 (h us rfl)⟩, ?_⟩
    rintro ⟨cs, rfl⟩ us' hus'
    cases hus'
    rw [← encodeUTF16_decodeUTF16_iff, decodeUTF16_encodeUTF16]

/-! ### Dates -/

/-- The object is the point of time, the day or the time of day of the fields. -/
def DateIs (u : UDateTime) : Obj → Prop
  | .datetime d => (d.year : ℤ) = u.year ∧ d.month = u.Month + 1 ∧ d.day = u.Day ∧
      d.hour = u.Hour ∧ d.minute = u.Minute ∧ d.second = u.Second ∧ d.microsecond * 10 = u.Ns100
  | .date year month day => (year : ℤ) = u.year ∧ month = u.Month + 1 ∧ day = u.Day ∧
      u.Hour = 0 ∧ u.Minute = 0 ∧ u.Second = 0 ∧ u.Ns100 = 0
  | .time hour minute second us => u.Day = 0 ∧ hour = u.Hour ∧ minute = u.Minute ∧
      second = u.Second ∧ us * 10 = u.Ns100
  | _ => False

/-- The fields are those of a time of day in whole microseconds, and, unless there is no day, of a
day that Python has. -/
structure DateReads (u : UDateTime) : Prop where
  clock : u.Hour < 24 ∧ u.Minute < 60 ∧ u.Second < 60 ∧ u.Ns100 < 10000000
  microseconds : 10 ∣ u.Ns100
  day : u.Day ≠ 0 → (1 ≤ u.year ∧ u.year ≤ 9999) ∧ ValidDate u.year (u.Month + 1) u.Day

/-- What `getDate` makes of the fields. -/
theorem getDate_eq {t : ℕ} (ht : t < 2 ^ 64) {u : UDateTime} (hu : u = .ofValue t) :
    getDate t =
      if u.Day ≠ 0 then
        if u.Hour ≠ 0 ∨ u.Minute ≠ 0 ∨ u.Second ≠ 0 ∨ u.Ns100 / 10 ≠ 0 then
          datetime? u.year (u.Month + 1) u.Day u.Hour u.Minute u.Second (u.Ns100 / 10)
        else date? u.year (u.Month + 1) u.Day
      else time? u.Hour u.Minute u.Second (u.Ns100 / 10) := by
  have hneg : t / 2 ^ 63 % 2 = t / 2 ^ 63 := Nat.mod_eq_of_lt (by omega)
  subst hu
  rw [UDateTime.year]
  simp only [UDateTime.ofValue, hneg]
  rfl

/-- **A word is read as the date of its fields** if and only if Python has it. -/
theorem getDate_is {t : ℕ} (ht : t < 2 ^ 64) :
    (∃ o, getDate t = some o ∧ DateIs (.ofValue t) o) ↔ DateReads (.ofValue t) := by
  generalize hu : UDateTime.ofValue t = u
  rw [getDate_eq ht hu.symm]
  by_cases hday : u.Day ≠ 0
  · rw [if_pos hday]
    split_ifs with hclock
    · -- A date and a time of day.
      rw [datetime?]
      constructor
      · rintro ⟨o, ho, his⟩
        split_ifs at ho with hall
        cases ho
        obtain ⟨hyear, hdate, hhour, hminute, hsecond, hus⟩ := hall
        have hns : u.Ns100 / 10 * 10 = u.Ns100 := his.2.2.2.2.2.2
        exact ⟨⟨hhour, hminute, hsecond, by omega⟩, ⟨_, (Nat.mul_comm ..).trans hns |>.symm⟩,
          fun _ ↦ ⟨hyear, hdate⟩⟩
      · rintro ⟨⟨hhour, hminute, hsecond, hns⟩, hdvd, hdate⟩
        obtain ⟨hyear, hvalid⟩ := hdate hday
        have hall : (1 ≤ u.year ∧ u.year ≤ 9999) ∧ ValidDate u.year (u.Month + 1) u.Day ∧
            u.Hour < 24 ∧ u.Minute < 60 ∧ u.Second < 60 ∧ u.Ns100 / 10 < 1000000 :=
          ⟨hyear, hvalid, hhour, hminute, hsecond, by omega⟩
        refine ⟨_, dif_pos hall, ?_, rfl, rfl, rfl, rfl, rfl, Nat.div_mul_cancel hdvd⟩
        exact Int.toNat_of_nonneg (by omega)
    · -- Midnight.
      rw [date?]
      constructor
      · rintro ⟨o, ho, his⟩
        split_ifs at ho with hall
        cases ho
        obtain ⟨-, -, -, hhour, hminute, hsecond, hns⟩ := his
        exact ⟨by omega, hns ▸ dvd_zero _, fun _ ↦ hall⟩
      · rintro ⟨-, hdvd, hdate⟩
        obtain ⟨hyear, hvalid⟩ := hdate hday
        refine ⟨_, if_pos ⟨hyear, hvalid⟩, Int.toNat_of_nonneg (by omega), rfl, rfl, ?_⟩
        omega
  · -- A time of day.
    rw [if_neg hday, time?]
    constructor
    · rintro ⟨o, ho, his⟩
      split_ifs at ho with hall
      cases ho
      obtain ⟨-, -, -, -, hns⟩ := his
      exact ⟨by omega, ⟨_, (Nat.mul_comm ..).trans hns |>.symm⟩, fun h ↦ absurd h hday⟩
    · rintro ⟨⟨hhour, hminute, hsecond, hns⟩, hdvd, -⟩
      refine ⟨_, if_pos ⟨hhour, hminute, hsecond, by omega⟩, not_not.1 hday, rfl, rfl, rfl, ?_⟩
      exact Nat.div_mul_cancel hdvd

/-! ### Scalars -/

/-- The scale, the sign and the integer of the bytes of a `DECIMAL`. -/
structure DecimalParts where
  scale : ℕ
  negative : Bool
  n : ℕ

def decimalParts (raw : List UInt8) : DecimalParts where
  scale := ofLE ((raw.drop 2).take 1)
  negative := ofLE ((raw.drop 3).take 1) ≠ 0
  n := ofLE ((raw.drop 4).take 4) * 2 ^ 64 + ofLE ((raw.drop 8).take 8)

section Values

variable (fp : Floats)

/-- The object is the value of these bytes. -/
def ScalarIs (t : ScalarVT) (raw : List UInt8) (o : Obj) : Prop :=
  match t with
  | .I1 | .I2 | .I4 | .INT | .I8 => o.atoms = [.number (signedLE raw)]
  | .UI1 | .UI2 | .UI4 | .UINT | .UI8 => o.atoms = [.number (ofLE raw)]
  | .R4 => o.atoms = [floatAtom (fp.toDouble (UInt32.ofNat (ofLE raw)))]
  | .R8 => o.atoms = [floatAtom (UInt64.ofNat (ofLE raw))]
  | .CY => o = .float (fp.tenThousandths (signedLE raw))
  | .DATE => DateIs (.ofValue (ofLE raw)) o
  | .BOOL => o.atoms = [.number (if ofLE raw ≠ 0 then 1 else 0)]
  | .DECIMAL =>
    let d := decimalParts raw
    o.atoms = [.number (scaled d.negative d.n 10 (-(d.scale : ℕ)))]

/-- `LoadObject` makes it. -/
def ScalarReads (t : ScalarVT) (raw : List UInt8) : Prop :=
  match t with
  | .CY => 0 ≤ signedLE raw
  | .DATE => DateReads (.ofValue (ofLE raw))
  | .DECIMAL =>
    let d := decimalParts raw
    d.scale ≤ numDigits d.n ∨ d.n = 0
  | _ => True

variable {fp}

theorem decimal_returnsIff {raw : List UInt8} (hraw : raw.length = 16) :
    ReturnsIff (ScalarReads .DECIMAL raw) LoadDecimal raw (ScalarIs fp .DECIMAL raw) := by
  have hfield (w : ℕ) (bytes : List UInt8) : ofLE (bytes.take w) < 256 ^ w :=
    (ofLE_lt _).trans_le (Nat.pow_le_pow_right (by decide) (List.length_take_le ..))
  have hread := LoadDecimal_returnsIff (ofLE (raw.take 2)) (ofLE ((raw.drop 2).take 1))
    (ofLE ((raw.drop 3).take 1)) (ofLE ((raw.drop 4).take 4)) (ofLE ((raw.drop 8).take 8))
    (hfield 2 raw) (hfield 1 (raw.drop 2)) (hfield 1 (raw.drop 3)) (hfield 4 (raw.drop 4))
    (hfield 8 (raw.drop 8)) (ScalarIs fp .DECIMAL raw)
  have hsplit : leBytes 2 (ofLE (raw.take 2)) ++ (leBytes 1 (ofLE ((raw.drop 2).take 1)) ++
      (leBytes 1 (ofLE ((raw.drop 3).take 1)) ++ (leBytes 4 (ofLE ((raw.drop 4).take 4)) ++
        leBytes 8 (ofLE ((raw.drop 8).take 8))))) = raw := by
    have hrest (k w : ℕ) (h : k + w ≤ 16) :
        leBytes w (ofLE ((raw.drop k).take w)) ++ raw.drop (k + w) = raw.drop k := by
      have heq := eq_leBytes_append (w := w) (h := show w ≤ (raw.drop k).length by
        rw [List.length_drop]
        omega)
      rw [List.drop_drop] at heq
      exact heq.symm
    have hlast : leBytes 8 (ofLE ((raw.drop 8).take 8)) = raw.drop 8 := by
      have hnil : raw.drop 16 = [] := List.drop_of_length_le hraw.le
      have heq := hrest 8 8 (by decide)
      rwa [hnil, List.append_nil] at heq
    rw [hlast, hrest 4 4 (by decide), hrest 3 1 (by decide), hrest 2 1 (by decide)]
    exact hrest 0 2 (by decide)
  rw [hsplit] at hread
  exact hread.congr (decimal?_value _ _ _).symm

/-- **A scalar**, as an object and as an element of an array. -/
theorem scalar_returnsIff (object : Load Obj) {t : ScalarVT} {raw : List UInt8}
    (hraw : raw.length = t.size) :
    ReturnsIff (ScalarReads t raw) (loadBranch fp object t.vt) raw (ScalarIs fp t raw) := by
  have hnat {w : ℕ} (hw : raw.length = w) (g : ℕ → Obj) :
      Reads (do return g (← loadNat w)) raw (g (ofLE raw)) := hw ▸ (loadNat_raw raw).map
  have hint {w : ℕ} (hw : raw.length = w) :
      Reads (do return Obj.int (← loadInt w)) raw (Obj.int (signedLE raw)) :=
    hw ▸ (loadInt_raw raw).map
  cases t with
  | I1 => exact (hint hraw).returnsIff.congr (iff_of_true trivial rfl)
  | I2 => exact (hint hraw).returnsIff.congr (iff_of_true trivial rfl)
  | I4 => exact (hint hraw).returnsIff.congr (iff_of_true trivial rfl)
  | INT => exact (hint hraw).returnsIff.congr (iff_of_true trivial rfl)
  | I8 => exact (hint hraw).returnsIff.congr (iff_of_true trivial rfl)
  | UI1 => exact (hnat hraw fun n ↦ .int n).returnsIff.congr (iff_of_true trivial rfl)
  | UI2 => exact (hnat hraw fun n ↦ .int n).returnsIff.congr (iff_of_true trivial rfl)
  | UI4 => exact (hnat hraw fun n ↦ .int n).returnsIff.congr (iff_of_true trivial rfl)
  | UINT => exact (hnat hraw fun n ↦ .int n).returnsIff.congr (iff_of_true trivial rfl)
  | UI8 => exact (hnat hraw fun n ↦ .int n).returnsIff.congr (iff_of_true trivial rfl)
  | R4 =>
    exact (hnat hraw fun n ↦ .float (fp.toDouble (UInt32.ofNat n))).returnsIff.congr
      (iff_of_true trivial rfl)
  | R8 =>
    exact (hnat hraw fun n ↦ .float (UInt64.ofNat n)).returnsIff.congr (iff_of_true trivial rfl)
  | BOOL =>
    refine (hnat hraw fun n ↦ .bool (decide (n ≠ 0))).returnsIff.congr (iff_of_true trivial ?_)
    simp [ScalarIs, Obj.atoms]
  | CY =>
    refine (hnat hraw fun n ↦ .float (fp.tenThousandths n)).returnsIff.congr ?_
    rw [ScalarReads, ScalarIs, Obj.float.injEq]
    constructor
    · intro hsign
      rw [(nonneg_signedLE_iff raw).1 hsign]
    · intro heq
      by_contra hneg
      exact fp.tenThousandths_ne _ _ (not_le.1 hneg) (Int.natCast_nonneg _) heq.symm
  | DATE =>
    have hlt : ofLE raw < 2 ^ 64 := (ofLE_lt raw).trans_le (by rw [hraw]; decide)
    have hload : Reads (loadNat 8) raw (ofLE raw) := by
      have hread := loadNat_raw raw
      rw [hraw] at hread
      exact hread
    have hdate : ReturnsIff _ LoadDate (raw ++ []) (DateIs (.ofValue (ofLE raw))) :=
      .bind hload (orRaise_returnsIff .value (getDate (ofLE raw)) _)
    rw [List.append_nil] at hdate
    exact hdate.congr (getDate_is hlt).symm
  | DECIMAL => exact decimal_returnsIff hraw

/-! ### Arrays -/

/-- The branch for the elements that are read one after the other. -/
theorem loadBranch_array (fp : Floats) (object : Load Obj) {vt : ℕ} (hvt : 0 < vt)
    (hI1 : vt ≠ sdVT_I1) (hUI1 : vt ≠ sdVT_UI1) :
    loadBranch fp object (sdVT_ARRAY + vt) =
      do
        let length ← loadNat 4
        return .list (← loadElements (elementReader fp object vt) length) := by
  have harray : sdVT_ARRAY < sdVT_ARRAY + vt := Nat.lt_add_of_pos_right hvt
  rw [loadBranch, if_neg (Nat.ne_zero_of_lt harray),
    if_neg (Nat.ne_of_gt (lt_trans (by decide) harray)), if_pos harray, Nat.add_sub_cancel_left,
    loadList, if_neg hI1, if_neg hUI1]
  rfl

/-- **An array is read** if and only if each of its elements is. -/
theorem array_returnsIff (fp : Floats) {γ : Type} {object element : Load Obj} (vt : ℕ)
    (enc : γ → List UInt8) {P : γ → Prop} {Q : γ → Obj → Prop} {cs : List γ} (hvt : 0 < vt) (hI1 : vt ≠ sdVT_I1)
    (hUI1 : vt ≠ sdVT_UI1) (helement : elementReader fp object vt = some element)
    (hlength : cs.length < 2 ^ 32) (h : ∀ c ∈ cs, ReturnsIff (P c) element (enc c) (Q c)) :
    ReturnsIff (∀ c ∈ cs, P c) (loadBranch fp object (sdVT_ARRAY + vt))
      (leBytes 4 cs.length ++ cs.flatMap enc)
      fun o ↦ ∃ os, o = .list os ∧ List.Forall₂ Q cs os := by
  rw [loadBranch_array fp object hvt hI1 hUI1, helement]
  refine .bind (loadNat_reads 4 hlength) (.map ?_)
  refine (ReturnsIff.repeatRead h).of_iff fun os ↦ ?_
  constructor
  · rintro ⟨os', hos, hforall⟩
    cases hos
    exact hforall
  · exact fun hforall ↦ ⟨os, rfl, hforall⟩

variable (fp)

/-- The object is the value of an array of scalars: a text of its `VT_I1`, and the bytes of its
`VT_UI1`. -/
def ScalarsAre (t : ScalarVT) (n : ℕ) (data : List UInt8) (o : Obj) : Prop :=
  match t with
  | .I1 => ∃ cs, encodeUTF8 cs = data ∧ o = .text cs
  | .UI1 => o = .bytearray data
  | t => ∃ os, o = .list os ∧ List.Forall₂ (ScalarIs fp t) (chunks t.size n data) os

/-- `LoadObject` makes it. -/
def ScalarsRead (t : ScalarVT) (n : ℕ) (data : List UInt8) : Prop :=
  match t with
  | .I1 => ValidUTF8 data
  | .UI1 => True
  | t => ∀ raw ∈ chunks t.size n data, ScalarReads t raw

variable {fp}

theorem scalars_returnsIff (object : Load Obj) {t : ScalarVT} {n : ℕ} {data : List UInt8}
    (hdata : data.length = n * t.size) (hlength : 4 + data.length < 2 ^ 32) (hn : n < 2 ^ 32) :
    ReturnsIff (ScalarsRead t n data) (loadBranch fp object (sdVT_ARRAY + t.vt))
      (leBytes 4 n ++ data) (ScalarsAre fp t n data) := by
  have hother (hI1 : t ≠ .I1) (hUI1 : t ≠ .UI1) :
      ReturnsIff (∀ raw ∈ chunks t.size n data, ScalarReads t raw)
        (loadBranch fp object (sdVT_ARRAY + t.vt)) (leBytes 4 n ++ data)
        fun o ↦ ∃ os, o = .list os ∧ List.Forall₂ (ScalarIs fp t) (chunks t.size n data) os := by
    obtain ⟨hjoin, hall⟩ := chunks_of_length hdata
    have htag : 0 < t.vt ∧ t.vt ≠ sdVT_I1 ∧ t.vt ≠ sdVT_UI1 ∧
        elementReader fp object t.vt = some (loadBranch fp object t.vt) := by
      cases t with
      | I1 => exact absurd rfl hI1
      | UI1 => exact absurd rfl hUI1
      | _ => exact ⟨by decide, by decide, by decide, rfl⟩
    have harray := array_returnsIff fp t.vt id (Q := ScalarIs fp t) htag.1 htag.2.1
      htag.2.2.1 htag.2.2.2 (by rwa [length_chunks]) fun raw hraw ↦
        scalar_returnsIff object (hall raw hraw)
    rw [length_chunks, hjoin] at harray
    exact harray
  have hbytes (ht : t.size = 1) : n = data.length := by rw [hdata, ht, Nat.mul_one]
  cases t with
  | I1 =>
    rw [hbytes rfl]
    exact decode_returnsIff rfl decodeUTF8?_eq_some data (by omega)
  | UI1 =>
    rw [hbytes rfl]
    have hbound : data.length < 2 ^ 32 := by omega
    have hread := loadSized_returnsIff (P := True) (fun bytes ↦ pure (.bytearray bytes))
      (.bytearray []) (Q := fun o ↦ o = .bytearray data) hbound (fun h ↦ by rw [h]) nofun
      ((Reads.returnsIff (a := .bytearray data) fun rest ↦ rfl).congr (iff_of_true trivial rfl))
    exact hread.congr (iff_of_true trivial ⟨by omega, trivial⟩)
  | _ => exact hother nofun nofun

/-! ### Values -/

variable (fp)

mutual

/-- The object is the value. -/
def Is : VARIANT → Obj → Prop
  | .empty, o => o = .object
  | .null, o => o = .none
  | .scalar t raw, o => ScalarIs fp t raw o
  | .bstr s, o => BSTRIs s o
  | .scalarArray t n data, o => ScalarsAre fp t n data o
  | .bstrArray ss, o => ∃ os, o = .list os ∧ List.Forall₂ BSTRIs ss os
  | .variantArray vs, o => ∃ os, o = .list os ∧ AllAre vs os
  | .unsupported _, _ => False
  | .unsupportedArray _ _, _ => False

def AllAre : List VARIANT → List Obj → Prop
  | [], os => os = []
  | v :: vs, os => ∃ o os', os = o :: os' ∧ Is v o ∧ AllAre vs os'

end

mutual

/-- `LoadObject` makes an object of this value. -/
def PythonReads : VARIANT → Prop
  | .scalar t raw => ScalarReads t raw
  | .bstr s => BSTRReads s
  | .scalarArray t n data => ScalarsRead t n data
  | .bstrArray ss => ∀ s ∈ ss, BSTRReads s
  | .variantArray vs => AllRead vs
  | _ => True

def AllRead : List VARIANT → Prop
  | [] => True
  | v :: vs => PythonReads v ∧ AllRead vs

end

theorem allAre_iff {vs : List VARIANT} {os : List Obj} :
    AllAre fp vs os ↔ List.Forall₂ (Is fp) vs os := by
  induction vs generalizing os with
  | nil => rw [AllAre, List.forall₂_nil_left_iff]
  | cons v vs ih =>
    rw [AllAre, List.forall₂_cons_left_iff]
    constructor
    · rintro ⟨o, os', rfl, ho, hos⟩
      exact ⟨o, os', ho, ih.1 hos, rfl⟩
    · rintro ⟨o, os', ho, hos, rfl⟩
      exact ⟨o, os', rfl, ho, ih.2 hos⟩

theorem allRead_iff {vs : List VARIANT} : AllRead vs ↔ ∀ v ∈ vs, PythonReads v := by
  induction vs with
  | nil => exact iff_of_true trivial (List.forall_mem_nil _)
  | cons v vs ih => rw [AllRead, ih, List.forall_mem_cons]

theorem encodeElements_eq (vs : List VARIANT) :
    VARIANT.encodeElements vs = vs.flatMap VARIANT.encode := by
  induction vs with
  | nil => rfl
  | cons v vs ih => rw [VARIANT.encodeElements_cons, ih, List.flatMap_cons]

theorem flatMap_bstrPieces (ss : List (Option (List UInt16))) :
    (ss.flatMap Buffer.bstrPieces).flatten = ss.flatMap encodeBSTR := by
  rw [← List.flatMap_id, List.flatMap_assoc]
  simp only [List.flatMap_id]
  rfl

theorem length_le_of_mem {γ : Type} (enc : γ → List UInt8) {cs : List γ} {c : γ} (hc : c ∈ cs) :
    (enc c).length ≤ (cs.flatMap enc).length :=
  (List.sublist_flatten_of_mem (List.mem_map_of_mem hc)).length_le

variable {fp}

mutual

/-- **A value is read** if and only if it is `PythonReads`. The fuel is enough for its bytes. -/
theorem variant_returnsIff : ∀ (v : VARIANT) (fuel : ℕ), v.WellFormed → v.encode.length < 2 ^ 32 →
    v.encode.length ≤ fuel →
      ReturnsIff (PythonReads v) (loadObject fp (fuel + 1)) v.encode (Is fp v)
  | .empty, fuel, _, _, _ =>
    (Reads.returnsIff (a := Obj.object) fun rest ↦ rfl).congr (iff_of_true trivial rfl)
  | .null, fuel, _, _, _ =>
    (Reads.returnsIff (a := Obj.none) fun rest ↦ rfl).congr (iff_of_true trivial rfl)
  | .scalar t raw, fuel, hv, _, _ => by
    have hraw : raw.length = t.size := by
      cases hv with
      | scalar hraw => exact hraw
    have htag : t.vt < 2 ^ 16 := by cases t <;> decide
    rw [VARIANT.encode, VARIANT.pieces, List.flatten_cons, List.flatten_singleton, PythonReads]
    exact (scalar_returnsIff _ hraw).bind (tag_reads _ htag)
  | .bstr s, fuel, _, hlen, _ =>
    (bstr_returnsIff (Buffer.length_payload_lt hlen)).bind (tag_reads 8 (by decide))
  | .scalarArray t n data, fuel, hv, hlen, _ => by
    obtain ⟨hn, hdata⟩ : n < 2 ^ 32 ∧ data.length = n * t.size := by
      cases hv with
      | scalarArray hn hdata => exact ⟨hn, hdata⟩
    have htag : sdVT_ARRAY + t.vt < 2 ^ 16 := by cases t <;> decide
    rw [Buffer.encode_scalarArray t hdata] at hlen ⊢
    simp only [List.length_append, length_leBytes] at hlen
    rw [PythonReads]
    exact (scalars_returnsIff _ hdata (by omega) hn).bind (tag_reads _ htag)
  | .bstrArray ss, fuel, hv, hlen, _ => by
    have hn : ss.length < 2 ^ 32 := by
      cases hv with
      | bstrArray hn _ => exact hn
    rw [Buffer.encode_bstrArray, flatMap_bstrPieces] at hlen ⊢
    simp only [List.length_append] at hlen
    rw [PythonReads]
    refine ReturnsIff.bind (tag_reads (sdVT_ARRAY + sdVT_BSTR) (by decide)) ?_
    refine array_returnsIff fp sdVT_BSTR encodeBSTR (by decide) (by decide) (by decide) rfl hn fun s hs ↦ ?_
    have hle := length_le_of_mem encodeBSTR hs
    exact bstr_returnsIff (by omega)
  | .variantArray vs, fuel, hv, hlen, hfuel => by
    obtain ⟨hn, hvs⟩ : vs.length < 2 ^ 32 ∧ ∀ v ∈ vs, v.WellFormed := by
      cases hv with
      | variantArray hn hvs => exact ⟨hn, hvs⟩
    rw [Buffer.encode_variantArray, encodeElements_eq] at hlen hfuel ⊢
    simp only [List.length_append, length_leBytes] at hlen hfuel
    obtain ⟨k, rfl⟩ : ∃ k, fuel = k + 1 := ⟨fuel - 1, by omega⟩
    refine ReturnsIff.bind (tag_reads (sdVT_ARRAY + sdVT_VARIANT) (by decide)) ?_
    have helements := variants_returnIff vs k hvs (by omega) (by omega)
    have harray := array_returnsIff fp sdVT_VARIANT VARIANT.encode (by decide) (by decide) (by decide) rfl
      hn helements
    rw [PythonReads, allRead_iff]
    exact harray.of_iff fun o ↦ by simp only [Is, allAre_iff]
  | .unsupported _, _, hv, _, _ => nomatch hv
  | .unsupportedArray _ _, _, hv, _, _ => nomatch hv

theorem variants_returnIff : ∀ (vs : List VARIANT) (fuel : ℕ), (∀ v ∈ vs, v.WellFormed) →
    (vs.flatMap VARIANT.encode).length < 2 ^ 32 → (vs.flatMap VARIANT.encode).length ≤ fuel →
      ∀ v ∈ vs, ReturnsIff (PythonReads v) (loadObject fp (fuel + 1)) v.encode (Is fp v)
  | [], _, _, _, _, _, hv => absurd hv List.not_mem_nil
  | w :: vs, fuel, hvs, hlen, hfuel, v, hv => by
    rw [List.flatMap_cons, List.length_append] at hlen hfuel
    rcases List.mem_cons.1 hv with heq | hv
    · rw [heq]
      exact variant_returnsIff w fuel (hvs w List.mem_cons_self) (by omega) (by omega)
    · exact variants_returnIff vs fuel (fun x hx ↦ hvs x (List.mem_cons_of_mem w hx)) (by omega)
        (by omega) v hv

end

theorem loadObject_variant_iff {v : VARIANT} (hv : v.WellFormed)
    (hlen : v.encode.length < 2 ^ 32) :
    Returns (LoadObject fp) v.encode (Is fp v) ↔ PythonReads v := by
  have hreads (rest : List UInt8) : ReturnsIff (PythonReads v)
      (loadObject fp ((v.encode ++ rest).length + 1)) v.encode (Is fp v) :=
    variant_returnsIff v _ hv hlen (by rw [List.length_append]; omega)
  constructor
  · intro hreturns
    by_contra hP
    obtain ⟨o, ho, his⟩ := hreturns []
    exact (hreads []).misses hP [] o [] ho his
  · exact fun hP rest ↦ (hreads rest).returns hP rest

end Values

/-- Some numbers of double precision: 2.5 for an amount of 25000. -/
def someFloats : Floats where
  toSingle x := if x = 0x4004000000000000 then some 0x40200000 else none
  toDouble y := if y = 0x40200000 then 0x4004000000000000 else 0
  tenThousandths n :=
    if n < 0 then 0xbff0000000000000 else if n = 25000 then 0x4004000000000000 else 0
  tenThousandths_ne m n hm hn := by
    rw [if_pos hm, if_neg (not_lt.2 hn)]
    split_ifs <;> decide

end SocketPro.Python
