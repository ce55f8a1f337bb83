import SocketPro.Python.Decimals

/-!
# Which objects come back from `LoadObject`

`Carried` is the condition on an object and a hint under which `SaveObject` does not raise and
`LoadObject` returns an equal object and leaves what follows. The proof goes along the object, as
`SaveObject` does: every branch is a writer and a reader for one type (`Carries`), an array is one
for its elements (`saveArray_carries`), and the elements of a mixed list are objects again.

**What does not come back**: a time at midnight becomes a `date`, a list of integers is not written
with the hints `b` and `B`, a decimal needs as many digits as it has places, and a number of double
precision is rounded with the hint `f`. An `IUSerializer` is not read without a `func`.
-/

namespace SocketPro.Python

open Bytes Unicode Calendar Machine

/-! ### Texts -/

/-- A text without surrogates whose bytes have a length that is none of a missing text. -/
def TextCarried (encode : List Char → List UInt8) (s : List CodePoint) : Prop :=
  ∃ cs : List Char, s = cs.map .char ∧ (encode cs).length < 0xffffffff

theorem chars?_eq_some {s : List CodePoint} {cs : List Char} :
    chars? s = some cs ↔ s = cs.map .char := by
  rw [chars?, mapM_eq_some]
  constructor
  · intro h
    induction s generalizing cs with
    | nil =>
      cases cs with
      | nil => rfl
      | cons c cs => cases h
    | cons p s ih =>
      cases cs with
      | nil => cases h
      | cons c cs =>
        rw [List.map_cons, List.map_cons, List.cons.injEq] at h
        cases p with
        | char d =>
          cases h.1
          rw [ih h.2, List.map_cons]
        | surrogate u => cases h.1
  · rintro rfl
    rw [List.map_map]
    rfl

/-- A length, and what is made of so many bytes. -/
theorem loadSized_returnsIff (make : List UInt8 → Load Obj) (empty : Obj) {bytes : List UInt8}
    {P : Prop} {Q : Obj → Prop} (hlength : bytes.length < 2 ^ 32)
    (hempty : bytes = [] → make bytes = pure empty) (hnone : ¬ Q .none)
    (h : ReturnsIff P (make bytes) [] Q) :
    ReturnsIff (bytes.length < 0xffffffff ∧ P) (loadSized make empty)
      (leBytes 4 bytes.length ++ bytes) Q := by
  refine .bind (loadNat_reads 4 hlength) ?_
  by_cases hnull : bytes.length = 0xffffffff
  · rw [if_pos hnull]
    refine ⟨fun hP ↦ absurd hnull hP.1.ne, fun _ rest a u ha ↦ ?_⟩
    cases ha
    exact hnone
  rw [if_neg hnull]
  have hP : bytes.length < 0xffffffff ∧ P ↔ P := and_iff_right (by omega)
  split_ifs with hzero
  · rw [List.length_eq_zero_iff] at hzero
    rw [hempty hzero] at h
    rw [hzero] at hP ⊢
    exact h.congr hP
  · have hbind := h.bind (load_reads bytes) (f := make)
    rw [List.append_nil] at hbind
    exact hbind.congr hP

/-- **A text in one format**: its writer, and a reader that decodes what was encoded. -/
theorem text_carries (encode : List Char → List UInt8) {decode? : List UInt8 → Option (List Char)}
    (hnil : encode [] = []) (hdecode : ∀ cs, decode? (encode cs) = some cs) (s : List CodePoint) :
    Carries (TextCarried encode s)
      (((chars? s).bind fun cs ↦ saveText (encode cs)).map fun w ↦ [w])
      (loadSized (fun bytes ↦ do return .text (← orRaise .unicode (decode? bytes))) (.text []))
      fun o ↦ o = .str s := by
  cases hchars : chars? s with
  | none =>
    refine .raised ?_
    rintro ⟨cs, hs, -⟩
    rw [chars?_eq_some.2 hs] at hchars
    cases hchars
  | some cs =>
    obtain rfl := chars?_eq_some.1 hchars
    have hcarried : TextCarried encode (cs.map .char) ↔ (encode cs).length < 0xffffffff := by
      refine ⟨?_, fun h ↦ ⟨cs, rfl, h⟩⟩
      rintro ⟨cs', hcs, h⟩
      obtain rfl := List.map_injective_iff.2 (fun _ _ h ↦ CodePoint.char.inj h) hcs
      exact h
    rw [Option.bind_some, saveText]
    split_ifs with hlength
    · have hmake : (do return .text (← orRaise .unicode (decode? (encode cs))) : Load Obj) =
          pure (.text cs) := by
        rw [hdecode]
        rfl
      have hread := loadSized_returnsIff (P := True)
        (fun bytes ↦ do return .text (← orRaise .unicode (decode? bytes)))
        (.text []) (Q := fun o ↦ o = .str (cs.map .char)) hlength
        (fun hbytes ↦ by
          have hcs : cs = [] := by
            have := hdecode cs
            rw [hbytes, ← hnil, hdecode] at this
            exact (Option.some.inj this).symm
          rw [hmake, hcs]) (fun h ↦ nomatch h) (by
            rw [hmake]
            exact (Reads.returnsIff (a := .text cs) fun rest ↦ rfl).congr (iff_of_true trivial rfl))
      exact .single (hread.congr (hcarried.trans (and_iff_left trivial).symm))
    · refine .raised fun h ↦ hlength ?_
      have := hcarried.1 h
      omega

theorem decodeUTF8?_encode (cs : List Char) : decodeUTF8? (encodeUTF8 cs) = some cs := by
  rw [decodeUTF8?, decodeUTF8_encodeUTF8, if_pos rfl]

theorem decodeUTF16?_encode (cs : List Char) :
    decodeUTF16? (utf16Bytes (encodeUTF16 cs)) = some cs := by
  rw [decodeUTF16?, utf16Units_utf16Bytes, decodeUTF16_encodeUTF16]
  exact if_pos rfl

/-! ### Dates -/

/-- A time of day other than midnight, on a day of the calendar, as every `datetime` is. -/
def DateTime.Carried (d : DateTime) : Prop :=
  ValidDate d.year d.month d.day ∧
    (d.hour ≠ 0 ∨ d.minute ≠ 0 ∨ d.second ≠ 0 ∨ d.microsecond ≠ 0)

instance : DecidablePred DateTime.Carried := fun _ ↦ inferInstanceAs (Decidable (_ ∧ _))

/-- The next field of a word: its lower bits, and what is above them. -/
theorem field_div {t a b k w : ℕ} (ht : t / 2 ^ k = a * 2 ^ w + b) (hb : b < 2 ^ w) :
    t / 2 ^ k % 2 ^ w = b ∧ t / 2 ^ (k + w) = a := by
  have hpos : 0 < 2 ^ w := Nat.pow_pos (by decide)
  rw [pow_add, ← Nat.div_div_eq_div_mul, ht, Nat.mul_comm a, Nat.mul_add_mod, Nat.mod_eq_of_lt hb,
    Nat.mul_add_div hpos, Nat.div_eq_of_lt hb, add_zero]
  exact ⟨rfl, rfl⟩

/-- The fields of the word that `SaveDate` writes. -/
theorem DateTime.fields_time (d : DateTime) :
    d.time < 2 ^ 64 ∧ d.time % 2 ^ 24 / 10 = d.microsecond ∧
      d.time / 2 ^ 24 % 2 ^ 6 = d.second ∧ d.time / 2 ^ 30 % 2 ^ 6 = d.minute ∧
      d.time / 2 ^ 36 % 2 ^ 5 = d.hour ∧ d.time / 2 ^ 41 % 2 ^ 5 = d.day ∧
      d.time / 2 ^ 46 % 2 ^ 4 + 1 = d.month ∧
      (if d.time / 2 ^ 63 ≠ 0 then 1900 - ((d.time / 2 ^ 50 % 2 ^ 13 : ℕ) : ℤ)
        else 1900 + ((d.time / 2 ^ 50 % 2 ^ 13 : ℕ) : ℤ)) = d.year := by
  have hmonth := d.month_pos
  have hmonth' := d.month_le
  have hday := d.day_le
  have hhour := d.hour_lt
  have hminute := d.minute_lt
  have hsecond := d.second_lt
  have hus := d.microsecond_lt
  have hyear := d.year_pos
  have hyear' := d.year_le
  obtain ⟨y, neg, hneg, hy, htime, hvalue⟩ : ∃ y neg : ℕ, neg < 2 ∧ y < 2 ^ 13 ∧
      d.time = ((((((neg * 2 ^ 13 + y) * 2 ^ 4 + (d.month - 1)) * 2 ^ 5 + d.day) * 2 ^ 5 +
        d.hour) * 2 ^ 6 + d.minute) * 2 ^ 6 + d.second) * 2 ^ 24 + d.microsecond * 10 ∧
      (if neg ≠ 0 then 1900 - (y : ℤ) else 1900 + (y : ℤ)) = d.year := by
    by_cases h1900 : 1900 ≤ d.year
    · refine ⟨d.year - 1900, 0, by decide, by omega, ?_, ?_⟩
      · rw [DateTime.time, if_pos h1900, Nat.zero_mul, Nat.zero_add]
      · rw [if_neg (by decide)]
        omega
    · refine ⟨1900 - d.year, 1, by decide, by omega, ?_, ?_⟩
      · rw [DateTime.time, if_neg h1900, Nat.one_mul]
      · rw [if_pos (by decide)]
        omega
  have htop : d.time / 2 ^ 0 = ((((((neg * 2 ^ 13 + y) * 2 ^ 4 + (d.month - 1)) * 2 ^ 5 + d.day) *
      2 ^ 5 + d.hour) * 2 ^ 6 + d.minute) * 2 ^ 6 + d.second) * 2 ^ 24 + d.microsecond * 10 := by
    rw [pow_zero, Nat.div_one, htime]
  obtain ⟨h0, h24⟩ := field_div htop (by omega)
  obtain ⟨h24', h30⟩ := field_div h24 (by omega)
  obtain ⟨h30', h36⟩ := field_div h30 (by omega)
  obtain ⟨h36', h41⟩ := field_div h36 (by omega)
  obtain ⟨h41', h46⟩ := field_div h41 (by omega)
  obtain ⟨h46', h50⟩ := field_div h46 (by omega)
  obtain ⟨h50', h63⟩ := field_div h50 hy
  rw [pow_zero, Nat.div_one] at h0
  refine ⟨?_, by omega, h24', h30', h36', h41', ?_, ?_⟩
  · have hlt : d.time / 2 ^ (0 + 24 + 6 + 6 + 5 + 5 + 4 + 13) < 2 := h63 ▸ hneg
    rw [Nat.div_lt_iff_lt_mul (Nat.pow_pos (by decide))] at hlt
    exact hlt
  · rw [h46']
    omega
  · rw [h63, h50']
    exact hvalue

/-- **What `LoadDate` makes of it**: a `date` where nothing of the time of day is left. -/
theorem DateTime.getDate_time (d : DateTime) :
    getDate d.time = if d.hour ≠ 0 ∨ d.minute ≠ 0 ∨ d.second ≠ 0 ∨ d.microsecond ≠ 0 then
      datetime? d.year d.month d.day d.hour d.minute d.second d.microsecond
    else date? d.year d.month d.day := by
  obtain ⟨-, hus, hsecond, hminute, hhour, hday, hmonth, hyear⟩ := d.fields_time
  have hpos := d.day_pos
  simp only [getDate, hus, hsecond, hminute, hhour, hday, hmonth, hyear]
  exact if_pos (by omega)

theorem DateTime.datetime?_eq (d : DateTime) :
    datetime? d.year d.month d.day d.hour d.minute d.second d.microsecond =
      if ValidDate d.year d.month d.day then some (.datetime d) else none := by
  have hyear : (1 : ℤ) ≤ d.year ∧ (d.year : ℤ) ≤ 9999 := by
    have := d.year_pos
    have := d.year_le
    omega
  rw [datetime?]
  split_ifs with hall hvalid hvalid
  · rfl
  · exact absurd hall.2.1 hvalid
  · exact absurd ⟨hyear, hvalid, d.hour_lt, d.minute_lt, d.second_lt, d.microsecond_lt⟩ hall
  · rfl

/-- **A date and time comes back** if and only if it is not midnight. -/
theorem date_carries (d : DateTime) :
    Carries d.Carried ((SaveDate d).map fun w ↦ [w]) LoadDate fun o ↦ o = .datetime d := by
  have hlt : d.time < 256 ^ 8 := d.fields_time.1
  have hread : ReturnsIff d.Carried LoadDate (leBytes 8 d.time ++ []) fun o ↦ o = .datetime d := by
    refine .bind (loadNat_reads _ hlt) ((orRaise_returnsIff .value (getDate d.time) _).congr ?_)
    rw [d.getDate_time, d.datetime?_eq, DateTime.Carried]
    split_ifs with hclock hvalid
    · exact iff_of_true ⟨hvalid, hclock⟩ ⟨_, rfl, rfl⟩
    · refine iff_of_false (fun h ↦ hvalid h.1) ?_
      rintro ⟨o, ho, -⟩
      cases ho
    · refine iff_of_false (fun h ↦ hclock h.2) ?_
      rintro ⟨o, ho, rfl⟩
      rw [date?] at ho
      split_ifs at ho
      cases ho
  rw [SaveDate, packInt_of_lt _ hlt]
  rw [List.append_nil] at hread
  exact .single hread

/-! ### Numbers -/

/-- The reader of an integer with or without a sign. -/
def readInt (width : ℕ) (signed : Bool) : Load Obj :=
  if signed = true then do return .int (← loadInt width) else do return .int (← loadNat width)

theorem int_carries (width : ℕ) (signed : Bool) (n : ℤ) :
    Carries (InRange width signed n) ((packInt width signed n).map fun w ↦ [w])
      (readInt width signed) fun o ↦ o.atoms = [.number n] := by
  rw [packInt]
  split_ifs with hrange
  · have hread : Reads (readInt width signed) (leBytes width (n % 256 ^ width).toNat)
        (.int n) := by
      cases signed with
      | true => exact (loadInt_reads hrange).map
      | false =>
        have hpow : (256 : ℤ) ^ width = (256 ^ width : ℕ) := by push_cast; rfl
        rw [InRange, if_neg Bool.false_ne_true, hpow] at hrange
        have hn : (n % 256 ^ width).toNat = n.toNat := by
          rw [hpow, Int.emod_eq_of_lt hrange.1 hrange.2]
        have hcast : (n.toNat : ℤ) = n := Int.toNat_of_nonneg hrange.1
        have hnat := (loadNat_reads width (n := n.toNat) (by omega)).map
          (g := fun k : ℕ ↦ Obj.int k)
        rw [hcast] at hnat
        rw [hn]
        exact hnat
    exact .single (hread.returnsIff.congr (iff_of_true hrange rfl))
  · exact .raised hrange

section Objects

variable (fp : Floats)

/-- A number of double precision that single precision has as well. -/
def FloatCarried (x : UInt64) : Prop :=
  ∃ y, fp.toSingle x = some y ∧ floatAtom (fp.toDouble y) = floatAtom x

/-- The readers of both precisions, of truth values, and of the number of a `UUID`. -/
def readSingle : Load Obj := do return .float (fp.toDouble (UInt32.ofNat (← loadNat 4)))

def readDouble : Load Obj := do return .float (UInt64.ofNat (← loadNat 8))

def readBool : Load Obj := do return .bool (decide ((← loadNat 2) ≠ 0))

variable {fp}

theorem single_carries (x : UInt64) :
    Carries (FloatCarried fp x) ((fp.toSingle x).map fun y ↦ [.pack (leBytes 4 y.toNat)])
      (readSingle fp) fun o ↦ o.atoms = [floatAtom x] := by
  cases hx : fp.toSingle x with
  | none =>
    refine .raised ?_
    rintro ⟨y, hy, -⟩
    rw [hx] at hy
    cases hy
  | some y =>
    have hread : Reads (readSingle fp) (leBytes 4 y.toNat) (.float (fp.toDouble y)) := by
      have := (loadNat_reads 4 y.toNat_lt).map
        (g := fun n ↦ Obj.float (fp.toDouble (UInt32.ofNat n)))
      rwa [UInt32.ofNat_toNat] at this
    refine .single (hread.returnsIff.congr ?_)
    constructor
    · rintro ⟨z, hz, hatom⟩
      rw [hx] at hz
      cases hz
      exact congrArg (fun a ↦ [a]) hatom
    · exact fun hatoms ↦ ⟨y, hx, (List.cons.inj hatoms).1⟩

theorem double_carries (x : UInt64) :
    Carries True (some [.pack (leBytes 8 x.toNat)]) readDouble
      fun o ↦ o.atoms = [floatAtom x] := by
  have hread : Reads readDouble (leBytes 8 x.toNat) (.float x) := by
    have := (loadNat_reads 8 x.toNat_lt).map (g := fun n ↦ Obj.float (UInt64.ofNat n))
    rwa [UInt64.ofNat_toNat] at this
  exact .always hread rfl

theorem uuid_carries (u : Uuid) : Carries True (some [.push u.1]) LoadUUID fun o ↦ o = .uuid u := by
  refine .always (a := .uuid u) (fun rest ↦ ?_) rfl
  have hlength : ¬ (u.1 ++ rest).length < 16 := by
    rw [List.length_append, u.2]
    omega
  have htake : (u.1 ++ rest).take 16 = u.1 := List.take_left' u.2
  have hdrop : (u.1 ++ rest).drop 16 = rest := List.drop_left' u.2
  show LoadUUID (u.1 ++ rest) = _
  rw [LoadUUID, dif_neg hlength, hdrop]
  congr 2
  exact Subtype.ext htake

/-- `True` is written as a number other than 0. -/
theorem bool_carries (signed : Bool) (yes : ℤ) (hyes : InRange 2 signed yes)
    (hbits : (yes % 256 ^ 2).toNat ≠ 0) (b : Bool) :
    Carries True ((packInt 2 signed (if b = true then yes else 0)).map fun w ↦ [w]) readBool
      fun o ↦ o.atoms = [.number (if b = true then 1 else 0)] := by
  have hlt : (yes % 256 ^ 2).toNat < 256 ^ 2 := by omega
  cases b with
  | false =>
    have hzero : InRange 2 signed 0 := by cases signed <;> decide
    rw [if_neg Bool.false_ne_true, packInt, if_pos hzero]
    have hread : Reads readBool (leBytes 2 0) (.bool false) :=
      (loadNat_reads 2 (by decide)).map
    exact .always hread rfl
  | true =>
    rw [if_pos rfl, packInt, if_pos hyes]
    have hread : Reads readBool (leBytes 2 (yes % 256 ^ 2).toNat) (.bool true) := by
      have := (loadNat_reads 2 hlt).map (g := fun n ↦ Obj.bool (decide (n ≠ 0)))
      rwa [decide_eq_true hbits] at this
    exact .always hread rfl

/-! ### The type in front -/

theorem tag_reads (vt : ℕ) (hvt : vt < 2 ^ 16) : Reads (loadNat 2) (saveVT vt).bytes vt :=
  loadNat_reads 2 hvt

/-- **A branch of `SaveObject` and one of `LoadObject`** for the same type. -/
theorem Carries.tagged (vt : ℕ) {fuel : ℕ} {P : Prop} {w : Option (List Write)}
    {Q : Obj → Prop} (hvt : vt < 2 ^ 16) (h : Carries P w (loadBranch fp (loadObject fp fuel) vt) Q) :
    Carries P (w.map fun ws ↦ saveVT vt :: ws) (loadObject fp (fuel + 1)) Q := by
  cases w with
  | none =>
    refine .raised fun hP ↦ ?_
    obtain ⟨ws, hws⟩ := h.written hP
    cases hws
  | some ws => exact .of_some ((h.reads ws rfl).bind (tag_reads vt hvt))

/-- The types of the elements of an array that are read one after the other. -/
def elementReader (fp : Floats) (object : Load Obj) (vt : ℕ) : Option (Load Obj) :=
  if vt = sdVT_VARIANT then some object else loadElement fp vt

/-- **An array comes back** if and only if its length fits and every element comes back. -/
theorem saveArray_carries {γ : Type} (vt fuel : ℕ) {element : Load Obj} {P : γ → Prop}
    {Q : γ → Obj → Prop} {save : γ → Option (List Write)} {cs : List γ} (hvt : 0 < vt)
    (hvt' : vt < 0x2000) (hI1 : vt ≠ sdVT_I1) (hUI1 : vt ≠ sdVT_UI1)
    (helement : elementReader fp (loadObject fp fuel) vt = some element)
    (h : ∀ c ∈ cs, Carries (P c) (save c) element (Q c)) :
    Carries (cs.length < 2 ^ 32 ∧ ∀ c ∈ cs, P c) (saveArray vt cs save) (loadObject fp (fuel + 1))
      fun o ↦ ∃ os, o = .list os ∧ List.Forall₂ Q cs os := by
  by_cases hlength : cs.length < 2 ^ 32
  · have helements := Carries.mapM h
    have hbranch : loadBranch fp (loadObject fp fuel) (sdVT_ARRAY + vt) =
        do
          let length ← loadNat 4
          return .list (← loadElements (some element) length) := by
      have harray : sdVT_ARRAY < sdVT_ARRAY + vt := Nat.lt_add_of_pos_right hvt
      rw [loadBranch, if_neg (Nat.ne_zero_of_lt harray),
        if_neg (Nat.ne_of_gt (lt_trans (by decide) harray)), if_pos harray,
        Nat.add_sub_cancel_left, loadList, if_neg hI1, if_neg hUI1, ← helement]
      rfl
    rw [saveArray, packInt_of_lt 4 hlength]
    cases hsave : cs.mapM save with
    | none =>
      refine .raised fun hP ↦ ?_
      obtain ⟨ws, hws⟩ := helements.written hP.2
      rw [hsave] at hws
      cases hws
    | some wss =>
      have hreads := helements.reads wss.flatten (by rw [hsave]; rfl)
      have htag : sdVT_ARRAY + vt < 2 ^ 16 := by
        show 0x2000 + vt < 2 ^ 16
        omega
      refine .of_some (.bind (tag_reads _ htag) ?_)
      rw [hbranch]
      refine .bind (loadNat_reads 4 hlength) (.map ?_)
      refine (hreads.congr (and_iff_right hlength)).of_iff fun os ↦ ?_
      constructor
      · rintro ⟨os', hos, hforall⟩
        cases hos
        exact hforall
      · exact fun hforall ↦ ⟨os, rfl, hforall⟩
  · rw [saveArray, packInt_of_le 4 (Nat.le_of_not_lt hlength)]
    exact .raised fun hP ↦ hlength hP.1

/-! ### Objects -/

variable (fp)

/-- The list of integers: two of the hints are not for lists. -/
def IntsCarried (hint : Hint) (ns : List ℤ) : Prop :=
  hint ≠ .b ∧ hint ≠ .B ∧ ∀ n ∈ ns, InRange hint.int.2.1 hint.int.2.2 n

/-- The list of floats. -/
def FloatsCarried (hint : Hint) (xs : List UInt64) : Prop :=
  hint ≠ .time ∧ (hint = .f → ∀ x ∈ xs, FloatCarried fp x)

/-- The list, where `objects` is the condition on its elements as objects. -/
def ListCarried (hint : Hint) (a : List Value) (objects : Prop) : Prop :=
  a.length < 2 ^ 32 ∧
    match a.mapM Value.bool? with
    | some _ => True
    | none =>
    match a.mapM Value.int? with
    | some ns => IntsCarried hint ns
    | none =>
    match a.mapM Value.float? with
    | some xs => FloatsCarried fp hint xs
    | none =>
    match a.mapM Value.uuid? with
    | some _ => True
    | none =>
    match a.mapM Value.decimal? with
    | some ds => ∀ d ∈ ds, d.Carried
    | none =>
    match a.mapM Value.serializer? with
    | some _ => False
    | none => objects

mutual

/-- **What comes back.** -/
def Carried (hint : Hint) : Value → Prop
  | .none => True
  | .object => True
  | .str s =>
    TextCarried (if hint = .c then encodeUTF8 else fun cs ↦ utf16Bytes (encodeUTF16 cs)) s
  | .datetime d => d.Carried
  | .bytearray a => a.length < 0xffffffff
  | .list a => ListCarried fp hint a (AllCarried a)
  | .tuple a => ListCarried fp hint a (AllCarried a)
  | .bool _ => True
  | .int n => InRange hint.int.2.1 hint.int.2.2 n
  | .float x => hint = .f → FloatCarried fp x
  | .uuid _ => True
  | .decimal d => d.Carried
  | .serializer _ => False

/-- The elements of a list that is none of one type. -/
def AllCarried : List Value → Prop
  | [] => True
  | v :: a => Carried .other v ∧ AllCarried a

end

mutual

/-- `o` is equal to the value, a list to a tuple as well. Of an `IUSerializer` no object is
known. -/
def Value.Equals : Value → Obj → Prop
  | .none, o => o = .none
  | .object, o => o = .object
  | .str s, o => o = .str s
  | .datetime d, o => o = .datetime d
  | .bytearray a, o => o = .bytearray a
  | .list a, o => ∃ os, o = .list os ∧ Value.AllEqual a os
  | .tuple a, o => ∃ os, o = .list os ∧ Value.AllEqual a os
  | .bool b, o => o.atoms = [.number (if b = true then 1 else 0)]
  | .int n, o => o.atoms = [.number n]
  | .float x, o => o.atoms = [floatAtom x]
  | .uuid u, o => o = .uuid u
  | .decimal d, o => d.Equals o
  | .serializer _, _ => False

/-- The elements one by one. -/
def Value.AllEqual : List Value → List Obj → Prop
  | [], os => os = []
  | v :: a, os => ∃ o os', os = o :: os' ∧ Value.Equals v o ∧ Value.AllEqual a os'

end

theorem allCarried_iff {a : List Value} : AllCarried fp a ↔ ∀ v ∈ a, Carried fp .other v := by
  induction a with
  | nil => exact iff_of_true trivial (List.forall_mem_nil _)
  | cons v a ih => rw [AllCarried, ih, List.forall_mem_cons]

theorem allEqual_iff {a : List Value} {os : List Obj} :
    Value.AllEqual a os ↔ List.Forall₂ Value.Equals a os := by
  induction a generalizing os with
  | nil => rw [Value.AllEqual, List.forall₂_nil_left_iff]
  | cons v a ih =>
    rw [Value.AllEqual, List.forall₂_cons_left_iff]
    constructor
    · rintro ⟨o, os', rfl, ho, hos⟩
      exact ⟨o, os', ho, ih.1 hos, rfl⟩
    · rintro ⟨o, os', ho, hos, rfl⟩
      exact ⟨o, os', rfl, ho, ih.2 hos⟩

/-- The elements of a list of one type. -/
theorem eq_map_of_mapM {δ : Type} {f : Value → Option δ} {g : δ → Value}
    (hf : ∀ v d, f v = some d → v = g d) {a : List Value} {ds : List δ} (h : a.mapM f = some ds) :
    a = ds.map g := by
  have hmap := mapM_eq_some.1 h
  clear h
  induction a generalizing ds with
  | nil =>
    cases ds with
    | nil => rfl
    | cons d ds => cases hmap
  | cons v a ih =>
    cases ds with
    | nil => cases hmap
    | cons d ds =>
      rw [List.map_cons, List.map_cons, List.cons.injEq] at hmap
      rw [hf v d hmap.1, ih hmap.2, List.map_cons]

variable {fp}

/-- A type and one write behind it. -/
theorem tagged_eq (vt : ℕ) (w : Option Write) :
    (do return [saveVT vt, ← w] : Option (List Write)) =
      (w.map fun w ↦ [w]).map fun ws ↦ saveVT vt :: ws := by
  cases w <;> rfl

/-- The integers of every hint. -/
theorem loadBranch_int (fp : Floats) (object : Load Obj) (hint : Hint) :
    loadBranch fp object hint.int.1 = readInt hint.int.2.1 hint.int.2.2 := by
  cases hint <;> rfl

/-- In an array they are read in the same way, up to two types that are not arrays of numbers. -/
theorem elementReader_int (fp : Floats) (object : Load Obj) {hint : Hint} (hb : hint ≠ .b)
    (hB : hint ≠ .B) :
    elementReader fp object hint.int.1 = some (readInt hint.int.2.1 hint.int.2.2) ∧
      0 < hint.int.1 ∧ hint.int.1 < 0x2000 ∧ hint.int.1 ≠ sdVT_I1 ∧ hint.int.1 ≠ sdVT_UI1 := by
  cases hint with
  | b => exact absurd rfl hb
  | B => exact absurd rfl hB
  | _ => exact ⟨rfl, by decide, by decide, by decide, by decide⟩

theorem str_carries (hint : Hint) (s : List CodePoint) (fuel : ℕ) :
    Carries (Carried fp hint (.str s)) (SaveObject fp.toSingle hint (.str s))
      (loadObject fp (fuel + 1)) (Value.str s).Equals := by
  rw [SaveObject, Carried]
  split_ifs with hc
  · have htext := text_carries encodeUTF8 rfl decodeUTF8?_encode s
    have hsave : SaveAString s = (chars? s).bind fun cs ↦ saveText (encodeUTF8 cs) := rfl
    rw [tagged_eq, hsave]
    exact .tagged _ (by decide) htext
  · have htext := text_carries (fun cs ↦ utf16Bytes (encodeUTF16 cs)) rfl
      decodeUTF16?_encode s
    have hsave : SaveString s = (chars? s).bind fun cs ↦ saveText (utf16Bytes (encodeUTF16 cs)) :=
      rfl
    rw [tagged_eq, hsave]
    exact .tagged _ (by decide) htext

theorem bytearray_carries (hint : Hint) (a : List UInt8) (fuel : ℕ) :
    Carries (Carried fp hint (.bytearray a)) (SaveObject fp.toSingle hint (.bytearray a))
      (loadObject fp (fuel + 1)) (Value.bytearray a).Equals := by
  rw [SaveObject, Carried]
  by_cases hlength : a.length < 2 ^ 32
  · have hread := loadSized_returnsIff (P := True) (fun bytes ↦ pure (.bytearray bytes))
      (.bytearray []) (Q := fun o ↦ o = .bytearray a) hlength (fun h ↦ by rw [h])
      (by simp)
      ((Reads.returnsIff (a := .bytearray a) fun rest ↦ rfl).congr (iff_of_true trivial rfl))
    have hbytes : bytesOf [.pack (leBytes 4 a.length), .push a] = leBytes 4 a.length ++ a := by
      simp [bytesOf, Write.bytes]
    rw [packInt_of_lt 4 hlength]
    refine Carries.tagged (sdVT_ARRAY + sdVT_UI1)
      (w := some [.pack (leBytes 4 a.length), .push a]) (by decide) (.of_some ?_)
    rw [hbytes]
    exact hread.congr (and_iff_left trivial).symm
  · rw [packInt_of_le 4 (Nat.le_of_not_lt hlength)]
    exact .raised fun h ↦ hlength (by omega)

/-- The elements of a list or a tuple. -/
def Value.elements? : Value → Option (List Value)
  | .list a => some a
  | .tuple a => some a
  | _ => Option.none

/-- **The objects that are no lists.** -/
theorem scalar_carries {hint : Hint} {v : Value} (hv : v.elements? = none) (fuel : ℕ) :
    Carries (Carried fp hint v) (SaveObject fp.toSingle hint v) (loadObject fp (fuel + 1))
      v.Equals := by
  cases v with
  | none =>
    rw [SaveObject, Carried]
    refine Carries.tagged sdVT_NULL (w := some []) (by decide) (.of_some ?_)
    exact (Reads.returnsIff (a := Obj.none) fun rest ↦ rfl).congr (iff_of_true trivial rfl)
  | object =>
    rw [SaveObject, Carried]
    refine Carries.tagged sdVT_EMPTY (w := some []) (by decide) (.of_some ?_)
    exact (Reads.returnsIff (a := Obj.object) fun rest ↦ rfl).congr (iff_of_true trivial rfl)
  | str s => exact str_carries hint s fuel
  | datetime d =>
    rw [SaveObject, Carried, tagged_eq]
    exact .tagged _ (by decide) (date_carries d)
  | bytearray a => exact bytearray_carries hint a fuel
  | list a => cases hv
  | tuple a => cases hv
  | bool b =>
    rw [SaveObject, Carried, tagged_eq]
    exact .tagged _ (by decide) (bool_carries _ _ (by decide) (by decide) b)
  | int n =>
    have hint_carries := int_carries hint.int.2.1 hint.int.2.2 n
    rw [← loadBranch_int fp (loadObject fp fuel)] at hint_carries
    rw [SaveObject, Carried, tagged_eq]
    exact .tagged _ (by cases hint <;> decide) hint_carries
  | float x =>
    rw [SaveObject, Carried]
    split_ifs with hf
    · have hsave : (do return [saveVT sdVT_R4, .pack (leBytes 4 (← fp.toSingle x).toNat)] :
          Option (List Write)) = ((fp.toSingle x).map fun y ↦ [.pack (leBytes 4 y.toNat)]).map
            fun ws ↦ saveVT sdVT_R4 :: ws := by
        cases fp.toSingle x <;> rfl
      rw [hsave]
      exact (Carries.tagged _ (by decide) (single_carries x)).congr (forall_prop_of_true hf)
    · exact (Carries.tagged sdVT_R8 (w := some [.pack (leBytes 8 x.toNat)]) (by decide)
        (double_carries x)).congr (iff_of_true (fun h ↦ absurd h hf) trivial)
  | uuid u =>
    rw [SaveObject, Carried]
    exact Carries.tagged sdVT_CLSID (w := some [.push u.1]) (by decide) (uuid_carries u)
  | decimal d =>
    have hsave : (do return saveVT sdVT_DECIMAL :: (← SaveDecimal d) : Option (List Write)) =
        (SaveDecimal d).map fun ws ↦ saveVT sdVT_DECIMAL :: ws := by
      cases SaveDecimal d <;> rfl
    rw [SaveObject, Carried, hsave]
    exact .tagged _ (by decide) (decimal_carries d)
  | serializer s =>
    rw [SaveObject, Carried]
    refine Carries.tagged sdVT_USERIALIZER_OBJECT (w := some s) (by decide) (.of_some ?_)
    exact Misses.returnsIff fun rest a u h ↦ by cases h

/-! ### Lists -/

/-- An array of the values of one type, which are the elements of the list. -/
theorem array_carries (fp : Floats) {δ : Type} (g : δ → Value) (vt : ℕ) (element : Load Obj)
    (fuel : ℕ) {P : δ → Prop} {save : δ → Option (List Write)} {ds : List δ} (hvt : 0 < vt) (hvt' : vt < 0x2000)
    (hI1 : vt ≠ sdVT_I1) (hUI1 : vt ≠ sdVT_UI1)
    (helement : elementReader fp (loadObject fp fuel) vt = some element)
    (h : ∀ d ∈ ds, Carries (P d) (save d) element (g d).Equals) :
    Carries ((ds.map g).length < 2 ^ 32 ∧ ∀ d ∈ ds, P d) (saveArray vt ds save)
      (loadObject fp (fuel + 1)) fun o ↦ ∃ os, o = .list os ∧ Value.AllEqual (ds.map g) os := by
  have harray := saveArray_carries vt fuel (Q := fun d ↦ (g d).Equals) hvt hvt' hI1 hUI1 helement h
  rw [List.length_map]
  refine ⟨harray.written, fun ws hws ↦ (harray.reads ws hws).of_iff fun o ↦ ?_⟩
  refine exists_congr fun os ↦ and_congr_right fun _ ↦ ?_
  rw [allEqual_iff, List.forall₂_map_left_iff]

/-- The writes of the elements as objects. -/
theorem SaveObjects_eq (toSingle : UInt64 → Option UInt32) (a : List Value) :
    SaveObjects toSingle a = (a.mapM (SaveObject toSingle .other)).map List.flatten := by
  induction a with
  | nil => rfl
  | cons v a ih =>
    rw [SaveObjects, List.mapM_cons, ih]
    cases SaveObject toSingle .other v with
    | none => rfl
    | some w => cases a.mapM (SaveObject toSingle .other) <;> rfl

/-- One number of an array. -/
theorem bind_singleton (w : Option Write) :
    (do return [← w] : Option (List Write)) = w.map fun w ↦ [w] := by
  cases w <;> rfl

theorem ints_carries (hint : Hint) (ns : List ℤ) (fuel : ℕ) :
    Carries ((ns.map Value.int).length < 2 ^ 32 ∧ IntsCarried hint ns) (saveInts hint ns)
      (loadObject fp (fuel + 1)) fun o ↦ ∃ os, o = .list os ∧
        Value.AllEqual (ns.map Value.int) os := by
  by_cases hhint : hint = .b ∨ hint = .B
  · have hnone : saveInts hint ns = none := by
      rcases hhint with rfl | rfl <;> rfl
    rw [hnone]
    exact .raised fun h ↦ hhint.elim h.2.1 h.2.2.1
  · obtain ⟨hb, hB⟩ := not_or.1 hhint
    obtain ⟨helement, hpos, hlt, hI1, hUI1⟩ :=
      elementReader_int fp (loadObject fp fuel) hb hB
    have harray := array_carries fp Value.int _ _ fuel hpos hlt hI1 hUI1 helement
      fun n (_ : n ∈ ns) ↦ int_carries hint.int.2.1 hint.int.2.2 n
    have hsave : saveInts hint ns = saveArray hint.int.1 ns
        fun n ↦ (packInt hint.int.2.1 hint.int.2.2 n).map fun w ↦ [w] := by
      rw [saveInts.eq_3 hint ns hb hB]
      simp only [bind_singleton]
    rw [hsave]
    refine harray.congr (and_congr_right fun _ ↦ ?_)
    rw [IntsCarried, and_iff_right hb, and_iff_right hB]

theorem floats_carries (hint : Hint) (xs : List UInt64) (fuel : ℕ) :
    Carries ((xs.map Value.float).length < 2 ^ 32 ∧ FloatsCarried fp hint xs)
      (saveFloats fp.toSingle hint xs) (loadObject fp (fuel + 1)) fun o ↦ ∃ os, o = .list os ∧
        Value.AllEqual (xs.map Value.float) os := by
  by_cases htime : hint = .time
  · rw [htime]
    exact .raised fun h ↦ h.2.1 rfl
  by_cases hf : hint = .f
  · have harray := array_carries fp Value.float sdVT_R4 (readSingle fp) fuel (by decide) (by decide)
      (by decide) (by decide) rfl fun x (_ : x ∈ xs) ↦ single_carries x
    have hsave : saveFloats fp.toSingle hint xs = saveArray sdVT_R4 xs
        fun x ↦ (fp.toSingle x).map fun y ↦ [.pack (leBytes 4 y.toNat)] := by
      rw [hf]
      refine congrArg (saveArray sdVT_R4 xs) (funext fun x ↦ ?_)
      cases fp.toSingle x <;> rfl
    rw [hsave]
    refine harray.congr (and_congr_right fun _ ↦ ?_)
    rw [FloatsCarried, and_iff_right htime, forall_prop_of_true hf]
  · have harray := array_carries fp Value.float sdVT_R8 readDouble fuel (by decide) (by decide)
      (by decide) (by decide) rfl fun x (_ : x ∈ xs) ↦ double_carries x
    rw [saveFloats.eq_3 _ hint xs htime hf]
    refine harray.congr (and_congr_right fun _ ↦ ?_)
    exact iff_of_true ⟨htime, fun h ↦ absurd h hf⟩ fun _ _ ↦ trivial

/-- **A list comes back** if and only if it is `ListCarried`, where `mixed` is about a list whose
elements are written as objects. -/
theorem saveList_carries {hint : Hint} {a : List Value} {fuel : ℕ}
    (mixed : saveList fp.toSingle hint a (SaveObjects fp.toSingle a) =
        saveArray sdVT_VARIANT a (SaveObject fp.toSingle .other) →
      Carries (a.length < 2 ^ 32 ∧ AllCarried fp a)
        (saveArray sdVT_VARIANT a (SaveObject fp.toSingle .other)) (loadObject fp (fuel + 1))
        fun o ↦ ∃ os, o = .list os ∧ Value.AllEqual a os) :
    Carries (ListCarried fp hint a (AllCarried fp a))
      (saveList fp.toSingle hint a (SaveObjects fp.toSingle a)) (loadObject fp (fuel + 1))
      fun o ↦ ∃ os, o = .list os ∧ Value.AllEqual a os := by
  rw [saveList, ListCarried]
  cases hbool : a.mapM Value.bool? with
  | some bs =>
    obtain rfl := eq_map_of_mapM (g := Value.bool) (fun v d h ↦ by cases v <;> cases h; rfl) hbool
    have harray := array_carries fp Value.bool sdVT_BOOL readBool fuel (by decide) (by decide)
      (by decide) (by decide) rfl fun b (_ : b ∈ bs) ↦ bool_carries true (-1) (by decide) (by decide) b
    simp only [bind_singleton]
    exact harray.congr (and_congr_right fun _ ↦ iff_of_true trivial fun _ _ ↦ trivial)
  | none =>
  dsimp only
  cases hint? : a.mapM Value.int? with
  | some ns =>
    obtain rfl := eq_map_of_mapM (g := Value.int) (fun v d h ↦ by cases v <;> cases h; rfl) hint?
    exact ints_carries hint ns fuel
  | none =>
  dsimp only
  cases hfloat : a.mapM Value.float? with
  | some xs =>
    obtain rfl := eq_map_of_mapM (g := Value.float) (fun v d h ↦ by cases v <;> cases h; rfl) hfloat
    exact floats_carries hint xs fuel
  | none =>
  dsimp only
  cases huuid : a.mapM Value.uuid? with
  | some us =>
    obtain rfl := eq_map_of_mapM (g := Value.uuid) (fun v d h ↦ by cases v <;> cases h; rfl) huuid
    have harray := array_carries fp Value.uuid sdVT_CLSID LoadUUID fuel (by decide) (by decide)
      (by decide) (by decide) rfl fun u (_ : u ∈ us) ↦ uuid_carries u
    exact harray.congr (and_congr_right fun _ ↦ iff_of_true trivial fun _ _ ↦ trivial)
  | none =>
  dsimp only
  cases hdecimal : a.mapM Value.decimal? with
  | some ds =>
    obtain rfl := eq_map_of_mapM (g := Value.decimal) (fun v d h ↦ by cases v <;> cases h; rfl)
      hdecimal
    exact array_carries fp Value.decimal sdVT_DECIMAL LoadDecimal fuel (by decide) (by decide)
      (by decide) (by decide) rfl fun d (_ : d ∈ ds) ↦ decimal_carries d
  | none =>
  dsimp only
  cases hserializer : a.mapM Value.serializer? with
  | some ss =>
    obtain rfl := eq_map_of_mapM (g := Value.serializer) (fun v d h ↦ by cases v <;> cases h; rfl)
      hserializer
    have harray := array_carries fp Value.serializer sdVT_USERIALIZER_OBJECT
      (Effect.raise .notCallable) fuel (by decide) (by decide) (by decide) (by decide)
      (P := fun _ ↦ False) rfl
      fun s (_ : s ∈ ss) ↦ @Carries.of_some _ _ _ _ s (Misses.returnsIff fun rest a u h ↦ by cases h)
    refine harray.congr (and_congr_right fun _ ↦ ⟨False.elim, fun h ↦ ?_⟩)
    cases ss with
    | nil => cases hbool
    | cons s ss => exact h s List.mem_cons_self
  | none =>
    have hsave : saveList fp.toSingle hint a (SaveObjects fp.toSingle a) =
        saveArray sdVT_VARIANT a (SaveObject fp.toSingle .other) := by
      rw [saveList, hbool, hint?, hfloat, huuid, hdecimal, hserializer, SaveObjects_eq, saveArray]
      cases packInt 4 false a.length with
      | none => rfl
      | some length => cases a.mapM (SaveObject fp.toSingle .other) <;> rfl
    have hmixed := mixed hsave
    rw [← hsave, saveList, hbool, hint?, hfloat, huuid, hdecimal, hserializer] at hmixed
    exact hmixed

/-- **A list of objects** comes back if and only if each of them does. -/
theorem mixed_carries {a : List Value} {fuel : ℕ}
    (h : ∀ v ∈ a, ∀ fuel : ℕ,
      (∀ ws, SaveObject fp.toSingle .other v = some ws → (bytesOf ws).length ≤ fuel) →
        Carries (Carried fp .other v) (SaveObject fp.toSingle .other v) (loadObject fp (fuel + 1))
          v.Equals)
    (hfuel : ∀ ws, saveArray sdVT_VARIANT a (SaveObject fp.toSingle .other) = some ws →
      (bytesOf ws).length ≤ fuel) :
    Carries (a.length < 2 ^ 32 ∧ AllCarried fp a)
      (saveArray sdVT_VARIANT a (SaveObject fp.toSingle .other)) (loadObject fp (fuel + 1))
      fun o ↦ ∃ os, o = .list os ∧ Value.AllEqual a os := by
  by_cases hlength : a.length < 2 ^ 32
  · rw [saveArray, packInt_of_lt 4 hlength] at hfuel ⊢
    cases hwss : a.mapM (SaveObject fp.toSingle .other) with
    | none =>
      refine .raised fun hP ↦ ?_
      -- With enough fuel every element has been written.
      obtain ⟨wss, hsome⟩ := exists_mapM fun v hv ↦
        (h v hv ((SaveObject fp.toSingle .other v).elim 0 fun ws ↦ (bytesOf ws).length)
          fun ws hws ↦ by rw [hws]; exact le_rfl).written ((allCarried_iff fp).1 hP.2 v hv)
      rw [hwss] at hsome
      cases hsome
    | some wss =>
      have hbytes : 6 + (bytesOf wss.flatten).length ≤ fuel := by
        have hle := hfuel _ (by rw [hwss]; rfl)
        simp only [bytesOf, List.flatMap_cons, List.length_append, saveVT, Write.bytes,
          length_leBytes] at hle
        rw [bytesOf]
        omega
      obtain ⟨k, rfl⟩ : ∃ k, fuel = k + 1 := ⟨fuel - 1, by omega⟩
      have helements (v : Value) (hv : v ∈ a) :
          Carries (Carried fp .other v) (SaveObject fp.toSingle .other v) (loadObject fp (k + 1))
            v.Equals := by
        refine h v hv k fun ws hws ↦ ?_
        have hle : (bytesOf ws).length ≤ (bytesOf wss.flatten).length := by
          rw [bytesOf_flatten]
          exact (List.sublist_flatten_of_mem
            (List.mem_map_of_mem (mem_of_mapM hwss hv hws))).length_le
        omega
      have harray := saveArray_carries sdVT_VARIANT (k + 1) (by decide) (by decide) (by decide)
        (by decide) rfl helements
      rw [saveArray, packInt_of_lt 4 hlength, hwss] at harray
      refine ⟨fun _ ↦ ⟨_, rfl⟩, fun ws hws ↦ ?_⟩
      refine ((harray.reads ws hws).congr ?_).of_iff fun o ↦ ?_
      · rw [allCarried_iff]
      · exact exists_congr fun os ↦ and_congr_right fun _ ↦ allEqual_iff
  · rw [saveArray, packInt_of_le 4 (Nat.le_of_not_lt hlength)]
    exact .raised fun hP ↦ hlength hP.1

mutual

/-- **An object comes back** if and only if it is `Carried`. The fuel is enough for its bytes. -/
theorem object_carries : ∀ (v : Value) (hint : Hint) (fuel : ℕ),
    (∀ ws, SaveObject fp.toSingle hint v = some ws → (bytesOf ws).length ≤ fuel) →
      Carries (Carried fp hint v) (SaveObject fp.toSingle hint v) (loadObject fp (fuel + 1))
        v.Equals
  | .list a, hint, fuel, hfuel => by
    rw [SaveObject] at hfuel ⊢
    rw [Carried]
    exact saveList_carries fun hsave ↦ mixed_carries (objects_carry a) (hsave ▸ hfuel)
  | .tuple a, hint, fuel, hfuel => by
    rw [SaveObject] at hfuel ⊢
    rw [Carried]
    exact saveList_carries fun hsave ↦ mixed_carries (objects_carry a) (hsave ▸ hfuel)
  | .none, _, fuel, _ => scalar_carries rfl fuel
  | .object, _, fuel, _ => scalar_carries rfl fuel
  | .str _, _, fuel, _ => scalar_carries rfl fuel
  | .datetime _, _, fuel, _ => scalar_carries rfl fuel
  | .bytearray _, _, fuel, _ => scalar_carries rfl fuel
  | .bool _, _, fuel, _ => scalar_carries rfl fuel
  | .int _, _, fuel, _ => scalar_carries rfl fuel
  | .float _, _, fuel, _ => scalar_carries rfl fuel
  | .uuid _, _, fuel, _ => scalar_carries rfl fuel
  | .decimal _, _, fuel, _ => scalar_carries rfl fuel
  | .serializer _, _, fuel, _ => scalar_carries rfl fuel

theorem objects_carry : ∀ (a : List Value), ∀ v ∈ a, ∀ fuel : ℕ,
    (∀ ws, SaveObject fp.toSingle .other v = some ws → (bytesOf ws).length ≤ fuel) →
      Carries (Carried fp .other v) (SaveObject fp.toSingle .other v) (loadObject fp (fuel + 1))
        v.Equals
  | [], _, hv, _, _ => absurd hv List.not_mem_nil
  | w :: a, v, hv, fuel, hfuel => by
    rcases List.mem_cons.1 hv with heq | hv
    · rw [heq] at hfuel ⊢
      exact object_carries w .other fuel hfuel
    · exact objects_carry a v hv fuel hfuel

end

variable (fp)

/-- `SaveObject` does not raise, and wherever the content begins with its bytes, `LoadObject` returns
an object that is equal to the value and leaves what follows. -/
def RoundTrips (hint : Hint) (v : Value) : Prop :=
  ∃ ws, SaveObject fp.toSingle hint v = some ws ∧ Returns (LoadObject fp) (bytesOf ws) v.Equals

theorem roundTrips_iff (hint : Hint) (v : Value) : RoundTrips fp hint v ↔ Carried fp hint v := by
  have hcarries (fuel : ℕ) {ws : List Write} (hws : SaveObject fp.toSingle hint v = some ws)
      (hfuel : (bytesOf ws).length ≤ fuel) :=
    (object_carries v hint fuel fun ws' hws' ↦ by
      rw [hws, Option.some.injEq] at hws'
      exact hws' ▸ hfuel).reads ws hws
  constructor
  · rintro ⟨ws, hws, hreturns⟩
    by_contra hP
    obtain ⟨o, ho, hequals⟩ := hreturns []
    have hlength : (bytesOf ws).length ≤ (bytesOf ws ++ []).length := by rw [List.append_nil]
    exact (hcarries _ hws hlength).misses hP [] o [] ho hequals
  · intro hP
    obtain ⟨ws, hws⟩ :=
      (object_carries v hint ((SaveObject fp.toSingle hint v).elim 0 fun ws ↦ (bytesOf ws).length)
        fun ws hws ↦ by rw [hws]; exact le_rfl).written hP
    refine ⟨ws, hws, fun rest ↦ ?_⟩
    have hlength : (bytesOf ws).length ≤ (bytesOf ws ++ rest).length := by
      rw [List.length_append]
      omega
    exact (hcarries _ hws hlength).returns hP rest

end Objects

end SocketPro.Python
