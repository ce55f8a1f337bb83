import SocketPro.Buffer.VariantReader

/-!
# Reading a whole VARIANT

The cases of the `switch` in `CUQueue::Pop(VARIANT&, position)` one by one, and from them the
reader itself, by induction on the bound of the nesting.

**What the reader does.** `popVariant_ok`: an item is read, its value and length are returned, and
what surrounds it is left. `popVariant_fault`: at a hazard the reader is at fault.
`popVariant_meets`: on any bytes, a return has read an item and a fault is at a hazard.
-/

namespace SocketPro.Buffer

open Bytes Machine Effect

variable {cv : Converters} {f : Flags} {pre tail rest : List UInt8}

/-- On these bytes the reader of a payload returns only with an item read and is at fault only at a
hazard; `vt` is the tag that has been read before. -/
def Reads (cv : Converters) (f : Flags) (vt : ℕ) (pre tail : List UInt8) (x : Pop (VARIANT × ℕ)) :
    Prop :=
  Meets x (pre ++ tail)
    (fun y c ↦ ∃ body rest, Item cv f y.1 (leBytes 2 vt ++ body) ∧ tail = body ++ rest ∧
      y.2 = body.length ∧ c = pre ++ rest)
    (Hazard cv f pre.length (leBytes 2 vt ++ tail))

/-! ### Scalars and class identifiers -/

theorem popCLSID_eq (c : List UInt8) :
    popCLSID pre.length c = ((popInto 17 16 pre.length >>= fun data ↦
      pure (.scalarArray .UI1 16 data, 16)) : Pop (VARIANT × ℕ)) c :=
  bind_ok (safeArrayCreate_ok (by decide) c)

theorem scalar_reads (t : ScalarVT) (hsize : pre.length + tail.length < 2 ^ 32) :
    Reads cv f t.vt pre tail (popInto t.size t.size pre.length >>= fun raw ↦
      pure (.scalar t raw, t.size)) := by
  have ht : t.size < 2 ^ 32 := lt_of_le_of_lt t.size_le (by decide)
  refine ((popInto_meets ht hsize fun _ ↦ le_rfl).mono (fun _ _ h ↦ h) Hazard.scalar).bind ?_
  rintro raw _ ⟨rest, rfl, hraw, rfl⟩
  exact Meets.pure ⟨raw, rest, .scalar hraw, rfl, hraw.symm, rfl⟩

theorem popCLSID_reads (hsize : pre.length + tail.length < 2 ^ 32) :
    Reads cv f VT_CLSID pre tail (popCLSID pre.length) := by
  have hcreate : sizeofSAFEARRAY ≤ safeArrayBytes ScalarVT.UI1.size 16 := by decide
  refine (Meets.of_ok (safeArrayCreate_ok hcreate _) ⟨rfl, rfl⟩ : Meets _ _
    (fun room c ↦ room = safeArrayBytes ScalarVT.UI1.size 16 - sizeofSAFEARRAY ∧
      c = pre ++ tail) _).bind ?_
  rintro _ _ ⟨rfl, rfl⟩
  refine ((popInto_meets (by decide) hsize fun _ ↦ by decide).mono (fun _ _ h ↦ h)
    Hazard.clsid).bind ?_
  rintro raw _ ⟨rest, rfl, hraw, rfl⟩
  exact Meets.pure ⟨raw, rest, .clsid hraw, rfl, hraw.symm, rfl⟩

/-! ### Strings converted to UTF-8 -/

section UTF8

/-- A text and its length, converted. -/
theorem popBSTRAsUTF8_text {len : ℕ} (hlen : len < UQUEUE_NULL_LENGTH)
    (hsize : pre.length + (leBytes 4 len ++ rest).length < 2 ^ 32) :
    popBSTRAsUTF8 cv pre.length (pre ++ (leBytes 4 len ++ rest)) =
      ((popText len 0 0 pre.length >>= fun text ↦
        safeArrayCreate ScalarVT.I1.size (cv.toUTF8 text).length >>= fun room ↦
          store (cv.toUTF8 text).length room >>= fun _ ↦
            pure (.scalarArray .I1 (cv.toUTF8 text).length (cv.toUTF8 text),
              (4 + len) % 2 ^ 32)) : Pop (VARIANT × ℕ)) (pre ++ rest) := by
  have hnum := popNumber_ok (w := 4) (lt_trans hlen (by decide)) hsize
  rw [popBSTRAsUTF8, bind_ok hnum, if_neg hlen.ne]

/-- The array for a converted text, and the copy into it. -/
theorem storeUTF8_ok {utf8 : List UInt8}
    (h : sizeofSAFEARRAY + utf8.length ≤ safeArrayBytes 1 utf8.length)
    {g : Unit → Pop (VARIANT × ℕ)} (c : List UInt8) :
    (safeArrayCreate ScalarVT.I1.size utf8.length >>= fun room ↦
      store utf8.length room >>= g) c = g () c := by
  have hcreate : sizeofSAFEARRAY ≤ safeArrayBytes ScalarVT.I1.size utf8.length :=
    le_trans (Nat.le_add_right _ _) h
  have hroom : utf8.length ≤ safeArrayBytes ScalarVT.I1.size utf8.length - sizeofSAFEARRAY :=
    Nat.le_sub_of_add_le' h
  rw [bind_ok (safeArrayCreate_ok hcreate c), bind_ok (store_ok hroom c)]

theorem storeUTF8_fault {utf8 : List UInt8} (h : NoRoom 1 utf8.length utf8.length)
    {g : Unit → Pop (VARIANT × ℕ)} (c : List UInt8) :
    (safeArrayCreate ScalarVT.I1.size utf8.length >>= fun room ↦
      store utf8.length room >>= g) c = .fault := by
  by_cases hcreate : sizeofSAFEARRAY ≤ safeArrayBytes ScalarVT.I1.size utf8.length
  · have hroom : safeArrayBytes ScalarVT.I1.size utf8.length - sizeofSAFEARRAY < utf8.length := by
      have h' : safeArrayBytes 1 utf8.length < sizeofSAFEARRAY + 1 * utf8.length := h
      rw [Nat.one_mul] at h'
      exact Nat.sub_lt_left_of_lt_add hcreate h'
    rw [bind_ok (safeArrayCreate_ok hcreate c), bind_fault (store_fault hroom c)]
  · have hcreate' : NoRoom ScalarVT.I1.size utf8.length 0 := Nat.not_le.1 hcreate
    exact bind_fault (safeArrayCreate_fault hcreate' c)

theorem popBSTRAsUTF8_null
    (hsize : pre.length + (leBytes 4 UQUEUE_NULL_LENGTH ++ rest).length < 2 ^ 32) :
    popBSTRAsUTF8 cv pre.length (pre ++ (leBytes 4 UQUEUE_NULL_LENGTH ++ rest)) =
      .ok (.null, 4) (pre ++ rest) := by
  have hnum := popNumber_ok (w := 4) (n := UQUEUE_NULL_LENGTH) (by decide) hsize
  rw [popBSTRAsUTF8, bind_ok hnum, if_pos rfl]
  rfl

section TextAsUTF8

variable {raw utf8 : List UInt8}

/-- Up to the conversion nothing can go wrong with a text that is there. -/
theorem popBSTRAsUTF8_eq (hraw : raw.length < UQUEUE_NULL_LENGTH)
    (hconv : cv.toUTF8 (utf16Units raw) = utf8)
    (hsize : pre.length + (leBytes 4 raw.length ++ (raw ++ rest)).length < 2 ^ 32) :
    popBSTRAsUTF8 cv pre.length (pre ++ (leBytes 4 raw.length ++ (raw ++ rest))) =
      ((safeArrayCreate ScalarVT.I1.size utf8.length >>= fun room ↦
        store utf8.length room >>= fun _ ↦
          pure (.scalarArray .I1 utf8.length utf8, (4 + raw.length) % 2 ^ 32)) :
            Pop (VARIANT × ℕ)) (pre ++ rest) := by
  have hsize' : pre.length + (raw ++ rest).length < 2 ^ 32 := by
    rw [List.length_append] at hsize
    omega
  rw [popBSTRAsUTF8_text hraw hsize, bind_ok (popText_ok le_rfl hsize'), hconv]

theorem popBSTRAsUTF8_ok (hraw : raw.length < UQUEUE_NULL_LENGTH)
    (hconv : cv.toUTF8 (utf16Units raw) = utf8)
    (hroom : sizeofSAFEARRAY + utf8.length ≤ safeArrayBytes 1 utf8.length)
    (hsize : pre.length + (leBytes 4 raw.length ++ (raw ++ rest)).length < 2 ^ 32) :
    popBSTRAsUTF8 cv pre.length (pre ++ (leBytes 4 raw.length ++ (raw ++ rest))) =
      .ok (.scalarArray .I1 utf8.length utf8, (leBytes 4 raw.length ++ raw).length)
        (pre ++ rest) := by
  have htotal : (4 + raw.length) % 2 ^ 32 = (leBytes 4 raw.length ++ raw).length := by
    simp only [List.length_append, length_leBytes] at hsize ⊢
    omega
  rw [popBSTRAsUTF8_eq hraw hconv hsize, storeUTF8_ok hroom, htotal]
  rfl

theorem popBSTRAsUTF8_noRoom (hraw : raw.length < UQUEUE_NULL_LENGTH)
    (hconv : cv.toUTF8 (utf16Units raw) = utf8) (hroom : NoRoom 1 utf8.length utf8.length)
    (hsize : pre.length + (leBytes 4 raw.length ++ (raw ++ rest)).length < 2 ^ 32) :
    popBSTRAsUTF8 cv pre.length (pre ++ (leBytes 4 raw.length ++ (raw ++ rest))) = .fault := by
  rw [popBSTRAsUTF8_eq hraw hconv hsize, storeUTF8_fault hroom]

end TextAsUTF8

theorem popBSTRAsUTF8_fault (h : BSTRHazard pre.length tail)
    (hsize : pre.length + tail.length < 2 ^ 32) :
    popBSTRAsUTF8 cv pre.length (pre ++ tail) = .fault := by
  cases h with
  | length hwrap => exact bind_fault (popNumber_fault (by decide) hsize hwrap)
  | @text len rest hlen hwrap =>
    have hsize' : pre.length + rest.length + 4 < 2 ^ 32 := by
      rw [List.length_append, length_leBytes] at hsize
      omega
    rw [popBSTRAsUTF8_text hlen hsize, bind_fault (popText_fault (lt_null hlen) hsize' hwrap)]

theorem popBSTRAsUTF8_reads (hf : f.m_ToUtf8 = true) (hsize : pre.length + tail.length < 2 ^ 32) :
    Reads cv f VT_BSTR pre tail (popBSTRAsUTF8 cv pre.length) := by
  refine ((popNumber_meets (by decide) hsize).mono (fun _ _ h ↦ h) fun hwrap ↦
    .bstr (.length hwrap)).bind ?_
  rintro len _ ⟨rest, rfl, hlen, rfl⟩
  have hrest : pre.length + rest.length + 4 < 2 ^ 32 := by
    rw [List.length_append, length_leBytes] at hsize
    omega
  by_cases hnull : len = UQUEUE_NULL_LENGTH
  · subst hnull
    rw [if_pos rfl]
    exact Meets.pure ⟨leBytes 4 UQUEUE_NULL_LENGTH, rest, .nullAsUTF8 hf, rfl, rfl, rfl⟩
  have hlen' : len < UQUEUE_NULL_LENGTH := Nat.lt_of_le_of_ne (Nat.le_of_lt_succ hlen) hnull
  rw [if_neg hnull]
  refine ((popText_meets (lt_null hlen') hrest).mono (fun _ _ h ↦ h) ?_).bind ?_
  · rintro (hwrap | ⟨_, _, _, _, hroom⟩)
    · exact .bstr (.text hlen' hwrap)
    · exact absurd hroom (Nat.lt_irrefl 0)
  · rintro us _ ⟨raw, rest', rfl, rfl, rfl, -, rfl⟩
    generalize hconv : cv.toUTF8 (utf16Units raw) = utf8
    by_cases hroom : sizeofSAFEARRAY + utf8.length ≤ safeArrayBytes 1 utf8.length
    · have htotal : (4 + raw.length) % 2 ^ 32 = (leBytes 4 raw.length ++ raw).length := by
        simp only [List.length_append, length_leBytes] at hsize ⊢
        omega
      refine .of_ok (storeUTF8_ok hroom _) ⟨leBytes 4 raw.length ++ raw, rest',
        .textAsUTF8 hf hlen' hconv hroom, (List.append_assoc _ _ _).symm, htotal, rfl⟩
    · have hroom' : NoRoom 1 utf8.length utf8.length := by
        rw [NoRoom, Nat.one_mul]
        exact Nat.not_le.1 hroom
      exact .of_fault (storeUTF8_fault hroom' _) (.textAsUTF8 hf hlen' hconv hroom')

end UTF8

/-! ### Arrays -/

/-- The element count of an array. -/
theorem popCount_meets {vt : ℕ} (hvt : vt < 2 ^ 16) (hk : (kindOf vt).IsArray)
    (hsize : pre.length + tail.length < 2 ^ 32) :
    Meets (popNumber 4 pre.length) (pre ++ tail)
      (fun n c ↦ ∃ rest, tail = leBytes 4 n ++ rest ∧ n < 2 ^ 32 ∧ c = pre ++ rest)
      (Hazard cv f pre.length (leBytes 2 vt ++ tail)) :=
  (popNumber_meets (by decide) hsize).mono (fun _ _ h ↦ h) (.count hvt hk)

/-- A tag that stands for a case is a 16-bit number. -/
theorem Kind.vt_lt {k : Kind} {vt : ℕ} (h : k.vt? = some vt) : vt < 2 ^ 16 := by
  cases k with
  | scalar t => cases h; cases t <;> decide
  | scalarArray t => cases h; cases t <;> decide
  | unsupportedArray => cases h
  | unsupported => cases h
  | _ => cases h; decide

section CharArray

variable {raw : List UInt8}

theorem popI1ArrayAsBSTR_ok (hraw : raw.length < 2 ^ 32)
    (hsize : pre.length + (leBytes 4 raw.length ++ (raw ++ rest)).length < 2 ^ 32) :
    popI1ArrayAsBSTR cv pre.length (pre ++ (leBytes 4 raw.length ++ (raw ++ rest))) =
      .ok (.bstr (some (cv.toBSTR raw)), (leBytes 4 raw.length ++ raw).length) (pre ++ rest) := by
  have htotal : (4 + raw.length) % 2 ^ 32 = (leBytes 4 raw.length ++ raw).length := by
    simp only [List.length_append, length_leBytes] at hsize ⊢
    omega
  rw [popI1ArrayAsBSTR, bind_ok (popNumber_ok (by exact hraw) hsize), bind_ok peek_ok,
    bind_ok discard_ok, htotal]
  rfl

/-- Nothing compares the count with what is left. -/
theorem popI1ArrayAsBSTR_fault {n : ℕ} (hn : n < 2 ^ 32) (hshort : rest.length < n)
    (hsize : pre.length + (leBytes 4 n ++ rest).length < 2 ^ 32) :
    popI1ArrayAsBSTR cv pre.length (pre ++ (leBytes 4 n ++ rest)) = .fault := by
  rw [popI1ArrayAsBSTR, bind_ok (popNumber_ok (by exact hn) hsize), bind_fault (peek_fault hshort)]

theorem popI1ArrayAsBSTR_reads (hf : f.m_8ToW = true) (hsize : pre.length + tail.length < 2 ^ 32) :
    Reads cv f (VT_ARRAY + ScalarVT.I1.vt) pre tail (popI1ArrayAsBSTR cv pre.length) := by
  have hkind : (kindOf (VT_ARRAY + ScalarVT.I1.vt)).IsArray := trivial
  refine (popCount_meets (by decide) hkind hsize).bind ?_
  rintro n _ ⟨rest, rfl, hn, rfl⟩
  by_cases hshort : rest.length < n
  · exact .of_fault (bind_fault (peek_fault hshort)) (.i1AsBSTR hf hn hshort)
  obtain ⟨raw, rest, rfl, rfl⟩ : ∃ raw rest', rest = raw ++ rest' ∧ raw.length = n :=
    ⟨rest.take n, rest.drop n, (List.take_append_drop n rest).symm,
      List.length_take_of_le (Nat.not_lt.1 hshort)⟩
  have hok : popI1ArrayAsBSTR cv pre.length _ = _ := popI1ArrayAsBSTR_ok hn hsize
  rw [popI1ArrayAsBSTR, bind_ok (popNumber_ok (by exact hn) hsize)] at hok
  exact .of_ok hok ⟨leBytes 4 raw.length ++ raw, rest, .i1AsBSTR hf hn,
    (List.append_assoc _ _ _).symm, rfl, rfl⟩

end CharArray

section ScalarArray

variable {t : ScalarVT} {n : ℕ}

theorem popScalarArray_ok {data : List UInt8} (hn : n < 2 ^ 32)
    (hcreate : sizeofSAFEARRAY ≤ safeArrayBytes t.size n) (hdata : data.length = n * t.size % 2 ^ 32)
    (hsize : pre.length + (leBytes 4 n ++ (data ++ rest)).length < 2 ^ 32) :
    popScalarArray t pre.length (pre ++ (leBytes 4 n ++ (data ++ rest))) =
      .ok (.scalarArray t n data, (leBytes 4 n ++ data).length) (pre ++ rest) := by
  have hlen : data.length + 4 < 2 ^ 32 := by
    simp only [List.length_append, length_leBytes] at hsize
    omega
  have hsize' : pre.length + (data ++ rest).length < 2 ^ 32 := by
    rw [List.length_append] at hsize
    omega
  have hroom : data.length ≤ safeArrayBytes t.size n - sizeofSAFEARRAY := by
    rw [hdata] at hlen ⊢
    exact le_safeArrayBytes hcreate (by omega)
  have htotal : (4 + data.length) % 2 ^ 32 = (leBytes 4 n ++ data).length := by
    rw [List.length_append, length_leBytes, Nat.mod_eq_of_lt (by omega)]
  rw [popScalarArray, bind_ok (popNumber_ok (by exact hn) hsize),
    bind_ok (safeArrayCreate_ok hcreate _), ← hdata, bind_ok (popInto_ok hroom hsize'), htotal]
  rfl

theorem popScalarArray_noRoom (hn : n < 2 ^ 32) (h : NoRoom t.size n 0)
    (hsize : pre.length + (leBytes 4 n ++ rest).length < 2 ^ 32) :
    popScalarArray t pre.length (pre ++ (leBytes 4 n ++ rest)) = .fault := by
  rw [popScalarArray, bind_ok (popNumber_ok (by exact hn) hsize),
    bind_fault (safeArrayCreate_fault h _)]

theorem popScalarArray_fault (hn : n < 2 ^ 32) (hwrap : 2 ^ 32 ≤ pre.length + n * t.size % 2 ^ 32)
    (hsize : pre.length + (leBytes 4 n ++ rest).length < 2 ^ 32) :
    popScalarArray t pre.length (pre ++ (leBytes 4 n ++ rest)) = .fault := by
  have hsize' : pre.length + rest.length < 2 ^ 32 := by
    rw [List.length_append] at hsize
    omega
  by_cases hcreate : sizeofSAFEARRAY ≤ safeArrayBytes t.size n
  · rw [popScalarArray, bind_ok (popNumber_ok (by exact hn) hsize),
      bind_ok (safeArrayCreate_ok hcreate _),
      bind_fault (popInto_fault (Nat.mod_lt _ (by decide)) hsize' hwrap)]
  · exact popScalarArray_noRoom hn (Nat.not_le.1 hcreate) hsize

theorem popScalarArray_reads (hf : (f.m_8ToW && t = .I1) = false)
    (hsize : pre.length + tail.length < 2 ^ 32) :
    Reads cv f (VT_ARRAY + t.vt) pre tail (popScalarArray t pre.length) := by
  have hk : kindOf (VT_ARRAY + t.vt) = .scalarArray t := kindOf_of_vt? rfl
  have hkind : (kindOf (VT_ARRAY + t.vt)).IsArray := by
    rw [hk]
    trivial
  refine (popCount_meets (Kind.vt_lt (k := .scalarArray t) rfl) hkind hsize).bind ?_
  rintro n _ ⟨rest, rfl, hn, rfl⟩
  rw [List.length_append, length_leBytes] at hsize
  refine ((safeArrayCreate_meets _).mono (fun _ _ h ↦ h) (.scalarArraySize hf hn)).bind ?_
  rintro _ _ ⟨hcreate, rfl, rfl⟩
  refine ((popInto_meets (Nat.mod_lt _ (by decide)) (by omega) fun hle ↦
    le_safeArrayBytes hcreate (by omega)).mono (fun _ _ h ↦ h) (.scalarArray hf hn)).bind ?_
  rintro data _ ⟨rest, rfl, hdata, rfl⟩
  refine Meets.pure ⟨leBytes 4 n ++ data, rest, .scalarArray hf hn hcreate hdata,
    (List.append_assoc _ _ _).symm, ?_, rfl⟩
  show (4 + n * t.size % 2 ^ 32) % 2 ^ 32 = _
  rw [← hdata, List.length_append, length_leBytes]
  rw [List.length_append] at hsize
  exact Nat.mod_eq_of_lt (by omega)

end ScalarArray

section Elements

/-- Where an element of an array of strings gets stuck. -/
def BSTRStuck (p room i : ℕ) (tail : List UInt8) : Prop :=
  BSTRHazard p tail ∨ ∃ s b rest, BSTRItem s b ∧ tail = b ++ rest ∧ room < 8 * (i + 1)

/-- Where an element of an array of variants gets stuck. -/
def ElementStuck (cv : Converters) (f : Flags) (p room i : ℕ) (tail : List UInt8) : Prop :=
  room < 24 * (i + 1) ∨ Hazard cv f p tail

/-- Room for `k` elements, counted from the bytes behind the header. -/
theorem noRoom_iff {cb n k : ℕ} (hcreate : sizeofSAFEARRAY ≤ safeArrayBytes cb n) :
    NoRoom cb n k ↔ safeArrayBytes cb n - sizeofSAFEARRAY < cb * k := by
  unfold NoRoom
  generalize cb * k = x
  omega

theorem popBSTRs_ok {ss : List (Option (List UInt16))} {bs : List UInt8} {room : ℕ}
    (hss : Chunked BSTRItem ss bs) (hroom : 8 * ss.length ≤ room)
    (hsize : pre.length + (bs ++ rest).length < 2 ^ 32) :
    popBSTRs room ss.length pre.length (pre ++ (bs ++ rest)) = .ok (ss, bs.length) (pre ++ rest) := by
  refine popLoop_ok (N := 2 ^ 32 - 1 - pre.length) (n := ss.length) (by omega) ?_ hss 0
    (Nat.zero_add _).le (by omega)
  intro i hi s b rest hs hlen
  exact popBSTR_ok hs (by omega) (by omega)

theorem popBSTRs_fault {ss : List (Option (List UInt16))} {bs : List UInt8} {room n : ℕ}
    (hss : Chunked BSTRItem ss bs) (hn : ss.length < n)
    (hstuck : BSTRStuck pre.length room ss.length rest)
    (hsize : pre.length + (bs ++ rest).length < 2 ^ 32) :
    popBSTRs room n pre.length (pre ++ (bs ++ rest)) = .fault := by
  refine popLoop_fault (N := 2 ^ 32 - 1 - pre.length) (H := BSTRStuck pre.length room) ?_ ?_ hss 0 n
    hn (by omega) ?_
  · intro i s b rest hs hlen
    by_cases hroom : 8 * (i + 1) ≤ room
    · exact .inl (popBSTR_ok hs hroom (by omega))
    · exact .inr (popBSTR_noRoom hs (Nat.not_le.1 hroom) (by omega))
  · rintro i rest hlen (hhazard | ⟨s, b, rest, hs, rfl, hroom⟩)
    · exact popBSTR_fault hhazard (by omega)
    · exact popBSTR_noRoom hs hroom (by omega)
  · rwa [Nat.zero_add]

theorem popBSTRs_meets {room n : ℕ} (hsize : pre.length + tail.length < 2 ^ 32) :
    Meets (popBSTRs room n pre.length) (pre ++ tail)
      (fun x c ↦ ∃ bs rest, Chunked BSTRItem x.1 bs ∧ x.1.length = n ∧ tail = bs ++ rest ∧
        x.2 = bs.length ∧ c = pre ++ rest ∧ ∀ j < n, 8 * (0 + j + 1) ≤ room)
      (∃ ss bs rest, Chunked BSTRItem ss bs ∧ ss.length < n ∧ tail = bs ++ rest ∧
        BSTRStuck pre.length room (0 + ss.length) rest) := by
  refine popLoop_meets (N := 2 ^ 32 - 1 - pre.length) (P := fun i ↦ 8 * (i + 1) ≤ room)
    (by omega) (fun i tail hlen ↦ ?_) n 0 tail (by omega)
  exact popBSTR_meets (by omega)

/-- The element `i` of an array of variants, where `pop` reads items of up to `N` bytes. -/
theorem popElement_ok {room i N : ℕ} {pop : Pop (VARIANT × ℕ)} {v : VARIANT} {b : List UInt8}
    (hpop : ∀ v b rest, Item cv f v b → (b ++ rest).length ≤ N →
      pop (pre ++ (b ++ rest)) = .ok (v, b.length) (pre ++ rest))
    (hv : Item cv f v b) (hlen : (b ++ rest).length ≤ N) (hroom : 24 * (i + 1) ≤ room) :
    popElement room pop i (pre ++ (b ++ rest)) = .ok (v, b.length) (pre ++ rest) := by
  rw [popElement, bind_ok (store_ok hroom _)]
  exact hpop v b rest hv hlen

section Loop

variable {N : ℕ} {pop : Pop (VARIANT × ℕ)} {vs : List VARIANT} {bs : List UInt8}

theorem popElements_ok {room : ℕ} (hN : N < 2 ^ 32)
    (hpop : ∀ v b rest, Item cv f v b → (b ++ rest).length ≤ N →
      pop (pre ++ (b ++ rest)) = .ok (v, b.length) (pre ++ rest))
    (hvs : Chunked (Item cv f) vs bs) (hroom : 24 * vs.length ≤ room)
    (hlen : (bs ++ rest).length ≤ N) :
    popElements room vs.length pop (pre ++ (bs ++ rest)) = .ok (vs, bs.length) (pre ++ rest) := by
  refine popLoop_ok hN ?_ hvs 0 (Nat.zero_add _).le hlen
  intro i hi v b rest hv hlen
  exact popElement_ok hpop hv hlen (by omega)

theorem popElements_fault {room n : ℕ}
    (hpop : ∀ v b rest, Item cv f v b → (b ++ rest).length ≤ N →
      pop (pre ++ (b ++ rest)) = .ok (v, b.length) (pre ++ rest))
    (hfault : ∀ tail, tail.length ≤ N → Hazard cv f pre.length tail → pop (pre ++ tail) = .fault)
    (hvs : Chunked (Item cv f) vs bs) (hn : vs.length < n)
    (hstuck : ElementStuck cv f pre.length room vs.length rest) (hlen : (bs ++ rest).length ≤ N) :
    popElements room n pop (pre ++ (bs ++ rest)) = .fault := by
  refine popLoop_fault (H := ElementStuck cv f pre.length room) ?_ ?_ hvs 0 n hn hlen ?_
  · intro i v b rest hv hlen
    by_cases hroom : 24 * (i + 1) ≤ room
    · exact .inl (popElement_ok hpop hv hlen hroom)
    · exact .inr (bind_fault (store_fault (Nat.not_le.1 hroom) _))
  · rintro i rest hlen (hroom | hhazard)
    · exact bind_fault (store_fault hroom _)
    by_cases hroom : 24 * (i + 1) ≤ room
    · rw [popElement, bind_ok (store_ok hroom _)]
      exact hfault rest hlen hhazard
    · exact bind_fault (store_fault (Nat.not_le.1 hroom) _)
  · rwa [Nat.zero_add]

theorem popElements_meets {room n : ℕ} (hN : N < 2 ^ 32)
    (hpop : ∀ tail, tail.length ≤ N → Meets pop (pre ++ tail)
      (fun x c ↦ ∃ b rest, Item cv f x.1 b ∧ tail = b ++ rest ∧ x.2 = b.length ∧ c = pre ++ rest)
      (Hazard cv f pre.length tail)) (hlen : tail.length ≤ N) :
    Meets (popElements room n pop) (pre ++ tail)
      (fun x c ↦ ∃ bs rest, Chunked (Item cv f) x.1 bs ∧ x.1.length = n ∧ tail = bs ++ rest ∧
        x.2 = bs.length ∧ c = pre ++ rest ∧ ∀ j < n, 24 * (0 + j + 1) ≤ room)
      (∃ vs bs rest, Chunked (Item cv f) vs bs ∧ vs.length < n ∧ tail = bs ++ rest ∧
        ElementStuck cv f pre.length room (0 + vs.length) rest) := by
  refine popLoop_meets (P := fun i ↦ 24 * (i + 1) ≤ room) hN (fun i tail hlen ↦ ?_) n 0 tail hlen
  by_cases hroom : 24 * (i + 1) ≤ room
  · refine (Meets.of_ok (store_ok hroom _) ⟨rfl, rfl⟩ : Meets (store (24 * (i + 1)) room) _
      (fun u c ↦ u = () ∧ c = pre ++ tail) _).bind ?_
    rintro _ _ ⟨rfl, rfl⟩
    refine (hpop tail hlen).mono ?_ .inr
    rintro x c ⟨b, rest, hv, htail, hx, hc⟩
    exact ⟨b, rest, hv, htail, hx, hc, hroom⟩
  · have hroom' : room < 24 * (i + 1) := Nat.not_le.1 hroom
    exact .of_fault (bind_fault (store_fault hroom' _)) (.inl hroom')

end Loop

section Array

variable {α : Type} {cb n : ℕ} {parray : List α → VARIANT} {loop : ℕ → ℕ → Pop (List α × ℕ)}
  {as : List α} {bs : List UInt8}

theorem popArray_ok (hn : n < 2 ^ 32) (hcreate : sizeofSAFEARRAY ≤ safeArrayBytes cb n)
    (hsize : pre.length + (leBytes 4 n ++ (bs ++ rest)).length < 2 ^ 32)
    (hloop : loop (safeArrayBytes cb n - sizeofSAFEARRAY) n (pre ++ (bs ++ rest)) =
      .ok (as, bs.length) (pre ++ rest)) :
    popArray cb pre.length parray loop (pre ++ (leBytes 4 n ++ (bs ++ rest))) =
      .ok (parray as, (leBytes 4 n ++ bs).length) (pre ++ rest) := by
  have htotal : (4 + bs.length) % 2 ^ 32 = (leBytes 4 n ++ bs).length := by
    simp only [List.length_append, length_leBytes] at hsize ⊢
    omega
  rw [popArray, bind_ok (popNumber_ok (by exact hn) hsize), bind_ok (safeArrayCreate_ok hcreate _),
    bind_ok hloop, ← htotal]
  rfl

theorem popArray_noRoom (hn : n < 2 ^ 32) (h : NoRoom cb n 0)
    (hsize : pre.length + (leBytes 4 n ++ rest).length < 2 ^ 32) :
    popArray cb pre.length parray loop (pre ++ (leBytes 4 n ++ rest)) = .fault := by
  rw [popArray, bind_ok (popNumber_ok (by exact hn) hsize), bind_fault (safeArrayCreate_fault h _)]

theorem popArray_fault (hn : n < 2 ^ 32)
    (hsize : pre.length + (leBytes 4 n ++ rest).length < 2 ^ 32)
    (hloop : sizeofSAFEARRAY ≤ safeArrayBytes cb n →
      loop (safeArrayBytes cb n - sizeofSAFEARRAY) n (pre ++ rest) = .fault) :
    popArray cb pre.length parray loop (pre ++ (leBytes 4 n ++ rest)) = .fault := by
  by_cases hcreate : sizeofSAFEARRAY ≤ safeArrayBytes cb n
  · rw [popArray, bind_ok (popNumber_ok (by exact hn) hsize),
      bind_ok (safeArrayCreate_ok hcreate _), bind_fault (hloop hcreate)]
  · exact popArray_noRoom hn (Nat.not_le.1 hcreate) hsize

/-- An array whose loop reads a chunk for every element. -/
theorem popArray_reads {R : α → List UInt8 → Prop} {vt : ℕ} {F : ℕ → List UInt8 → Prop}
    (hvt : vt < 2 ^ 16) (hk : (kindOf vt).IsArray) (hsize : pre.length + tail.length < 2 ^ 32)
    (hloop : ∀ n rest, tail = leBytes 4 n ++ rest → sizeofSAFEARRAY ≤ safeArrayBytes cb n →
      Meets (loop (safeArrayBytes cb n - sizeofSAFEARRAY) n) (pre ++ rest)
        (fun x c ↦ ∃ bs rest', Chunked R x.1 bs ∧ x.1.length = n ∧ rest = bs ++ rest' ∧
          x.2 = bs.length ∧ c = pre ++ rest' ∧
          ∀ j < n, cb * (0 + j + 1) ≤ safeArrayBytes cb n - sizeofSAFEARRAY) (F n rest))
    (hitem : ∀ as bs, as.length < 2 ^ 32 →
      sizeofSAFEARRAY + cb * as.length ≤ safeArrayBytes cb as.length → Chunked R as bs →
      Item cv f (parray as) (leBytes 2 vt ++ (leBytes 4 as.length ++ bs)))
    (hroom : ∀ n rest, n < 2 ^ 32 → NoRoom cb n 0 →
      Hazard cv f pre.length (leBytes 2 vt ++ (leBytes 4 n ++ rest)))
    (hF : ∀ n rest, n < 2 ^ 32 → sizeofSAFEARRAY ≤ safeArrayBytes cb n → F n rest →
      Hazard cv f pre.length (leBytes 2 vt ++ (leBytes 4 n ++ rest))) :
    Reads cv f vt pre tail (popArray cb pre.length parray loop) := by
  refine (popCount_meets hvt hk hsize).bind ?_
  rintro n _ ⟨rest, rfl, hn, rfl⟩
  refine ((safeArrayCreate_meets _).mono (fun _ _ h ↦ h) (hroom n rest hn)).bind ?_
  rintro _ _ ⟨hcreate, rfl, rfl⟩
  refine ((hloop n rest rfl hcreate).mono (fun _ _ h ↦ h) (hF n rest hn hcreate)).bind ?_
  rintro ⟨as, m⟩ _ ⟨bs, rest', has, rfl, rfl, hm, rfl, hused⟩
  dsimp only at hn hm hsize hcreate has hused ⊢
  -- All elements have been stored, the last one too.
  have hall : sizeofSAFEARRAY + cb * as.length ≤ safeArrayBytes cb as.length := by
    rcases Nat.eq_zero_or_pos as.length with h0 | hpos
    · rw [h0] at hcreate ⊢
      exact hcreate
    · have hlast := hused (as.length - 1) (by omega)
      have hlen : 0 + (as.length - 1) + 1 = as.length := by omega
      rw [hlen] at hlast
      generalize cb * as.length = x at *
      omega
  refine Meets.pure ⟨leBytes 4 as.length ++ bs, rest', hitem as bs hn hall has,
    (List.append_assoc _ _ _).symm, ?_, rfl⟩
  rw [hm]
  simp only [List.length_append, length_leBytes] at hsize ⊢
  omega

end Array

end Elements

/-! ### The switch -/

/-- What the reader does once a tag has been read. -/
theorem popVariantFuel_tag {fuel : ℕ} {k : Kind} {vt : ℕ} (hk : kindOf vt = k) (hvt : vt < 2 ^ 16)
    (hsize : pre.length + (leBytes 2 vt ++ rest).length < 2 ^ 32) :
    popVariantFuel cv f pre.length (fuel + 1) (pre ++ (leBytes 2 vt ++ rest)) =
      ((popPayload cv f pre.length (popVariantFuel cv f pre.length fuel) k >>= fun x ↦
        pure (x.1, (2 + x.2) % 2 ^ 32)) : Pop (VARIANT × ℕ)) (pre ++ rest) := by
  rw [popVariantFuel, bind_ok (popNumber_ok (by exact hvt) hsize), hk]

/-- An item is read if its payload is. -/
theorem popVariantFuel_ok_of_payload {fuel : ℕ} {k : Kind} {vt : ℕ} {v : VARIANT}
    {body : List UInt8} (hk : k.vt? = some vt)
    (hsize : pre.length + ((leBytes 2 vt ++ body) ++ rest).length < 2 ^ 32)
    (h : popPayload cv f pre.length (popVariantFuel cv f pre.length fuel) k
      (pre ++ (body ++ rest)) = .ok (v, body.length) (pre ++ rest)) :
    popVariantFuel cv f pre.length (fuel + 1) (pre ++ ((leBytes 2 vt ++ body) ++ rest)) =
      .ok (v, (leBytes 2 vt ++ body).length) (pre ++ rest) := by
  have htotal : (2 + body.length) % 2 ^ 32 = (leBytes 2 vt ++ body).length := by
    simp only [List.length_append, length_leBytes] at hsize ⊢
    omega
  rw [List.append_assoc] at hsize ⊢
  rw [popVariantFuel_tag (kindOf_of_vt? hk) (Kind.vt_lt hk) hsize, bind_ok h, ← htotal]
  rfl

/-- A string without conversion. -/
theorem popPayload_bstr (hf : f.m_ToUtf8 = false) (pop : Pop (VARIANT × ℕ)) :
    popPayload cv f pre.length pop .bstr =
      popBSTR 0 0 pre.length >>= fun x ↦ pure (.bstr x.1, x.2) := by
  rw [popPayload, hf]
  rfl

theorem popPayload_bstrAsUTF8 (hf : f.m_ToUtf8 = true) (pop : Pop (VARIANT × ℕ)) :
    popPayload cv f pre.length pop .bstr = popBSTRAsUTF8 cv pre.length := by
  rw [popPayload, hf]
  rfl

theorem popPayload_i1AsBSTR (hf : f.m_8ToW = true) (pop : Pop (VARIANT × ℕ)) :
    popPayload cv f pre.length pop (.scalarArray .I1) = popI1ArrayAsBSTR cv pre.length := by
  rw [popPayload, hf]
  rfl

theorem popPayload_scalarArray {t : ScalarVT} (hf : (f.m_8ToW && t = .I1) = false)
    (pop : Pop (VARIANT × ℕ)) :
    popPayload cv f pre.length pop (.scalarArray t) = popScalarArray t pre.length := by
  rw [popPayload, hf]
  rfl

/-- At a payload that begins with a count there is nothing to read if the count is out of reach. -/
theorem popPayload_count_fault {k : Kind} (hk : k.IsArray) (pop : Pop (VARIANT × ℕ))
    (hsize : pre.length + rest.length < 2 ^ 32) (hwrap : 2 ^ 32 ≤ pre.length + 4) :
    popPayload cv f pre.length pop k (pre ++ rest) = .fault := by
  have hnum := popNumber_fault (w := 4) (by decide) hsize hwrap
  cases k with
  | scalarArray t =>
    rw [popPayload]
    cases f.m_8ToW && t = .I1
    · exact bind_fault hnum
    · exact bind_fault hnum
  | bstrArray => exact bind_fault hnum
  | variantArray => exact bind_fault hnum
  | unsupportedArray => exact bind_fault hnum
  | _ => exact absurd hk id

/-! ### The reader -/

theorem popVariantFuel_ok : ∀ (fuel : ℕ) (v : VARIANT) (b rest : List UInt8), Item cv f v b →
    (b ++ rest).length < fuel → pre.length + (b ++ rest).length < 2 ^ 32 →
    popVariantFuel cv f pre.length fuel (pre ++ (b ++ rest)) = .ok (v, b.length) (pre ++ rest) := by
  intro fuel
  induction fuel with
  | zero => exact fun _ _ _ _ h ↦ absurd h (Nat.not_lt_zero _)
  | succ fuel ih =>
    intro v b rest hv hfuel hsize
    cases hv with
    | empty =>
      have h : popVariantFuel cv f pre.length (fuel + 1)
          (pre ++ ((leBytes 2 VT_EMPTY ++ []) ++ rest)) = .ok (.empty, _) (pre ++ rest) :=
        popVariantFuel_ok_of_payload (k := .empty) rfl (by rwa [List.append_nil]) rfl
      rwa [List.append_nil] at h
    | null =>
      have h : popVariantFuel cv f pre.length (fuel + 1)
          (pre ++ ((leBytes 2 VT_NULL ++ []) ++ rest)) = .ok (.null, _) (pre ++ rest) :=
        popVariantFuel_ok_of_payload (k := .null) rfl (by rwa [List.append_nil]) rfl
      rwa [List.append_nil] at h
    | @scalar t raw hraw =>
      refine popVariantFuel_ok_of_payload (k := .scalar t) rfl hsize ?_
      simp only [List.length_append, length_leBytes] at hsize
      have hpop : popInto t.size raw.length pre.length (pre ++ (raw ++ rest)) = _ :=
        popInto_ok hraw.le (by rw [List.length_append]; omega)
      rw [hraw] at hpop ⊢
      exact bind_ok hpop
    | @bstr s b hf hs =>
      refine popVariantFuel_ok_of_payload (k := .bstr) rfl hsize ?_
      simp only [List.length_append, length_leBytes] at hsize
      rw [popPayload_bstr hf]
      exact bind_ok (popBSTR_ok hs le_rfl (by rw [List.length_append]; omega))
    | nullAsUTF8 hf =>
      refine popVariantFuel_ok_of_payload (k := .bstr) rfl hsize ?_
      simp only [List.length_append, length_leBytes] at hsize
      rw [popPayload_bstrAsUTF8 hf]
      exact popBSTRAsUTF8_null (by simp only [List.length_append, length_leBytes]; omega)
    | @textAsUTF8 raw utf8 hf hraw hconv hroom =>
      refine popVariantFuel_ok_of_payload (k := .bstr) rfl hsize ?_
      simp only [List.length_append, length_leBytes] at hsize
      rw [popPayload_bstrAsUTF8 hf, List.append_assoc]
      exact popBSTRAsUTF8_ok hraw hconv hroom
        (by simp only [List.length_append, length_leBytes]; omega)
    | @clsid raw hraw =>
      refine popVariantFuel_ok_of_payload (k := .clsid) rfl hsize ?_
      simp only [List.length_append, length_leBytes] at hsize
      have hpop : popInto 17 raw.length pre.length (pre ++ (raw ++ rest)) = _ :=
        popInto_ok (by omega) (by rw [List.length_append]; omega)
      rw [hraw] at hpop ⊢
      rw [popPayload, popCLSID_eq]
      exact bind_ok hpop
    | @i1AsBSTR raw hf hraw =>
      refine popVariantFuel_ok_of_payload (k := .scalarArray .I1) rfl hsize ?_
      simp only [List.length_append, length_leBytes] at hsize
      rw [popPayload_i1AsBSTR hf, List.append_assoc]
      exact popI1ArrayAsBSTR_ok hraw (by simp only [List.length_append, length_leBytes]; omega)
    | @scalarArray t n data hf hn hcreate hdata =>
      refine popVariantFuel_ok_of_payload (k := .scalarArray t) rfl hsize ?_
      simp only [List.length_append, length_leBytes] at hsize
      rw [popPayload_scalarArray hf, List.append_assoc]
      exact popScalarArray_ok hn hcreate hdata
        (by simp only [List.length_append, length_leBytes]; omega)
    | @bstrArray ss bs hn hroom hss =>
      refine popVariantFuel_ok_of_payload (k := .bstrArray) rfl hsize ?_
      simp only [List.length_append, length_leBytes] at hsize
      rw [popPayload, List.append_assoc]
      refine popArray_ok hn (le_trans (Nat.le_add_right _ _) hroom)
        (by simp only [List.length_append, length_leBytes]; omega) ?_
      exact popBSTRs_ok hss (Nat.le_sub_of_add_le' hroom) (by rw [List.length_append]; omega)
    | @variantArray vs bs hn hroom hvs =>
      refine popVariantFuel_ok_of_payload (k := .variantArray) rfl hsize ?_
      simp only [List.length_append, length_leBytes] at hsize hfuel
      rw [popPayload, List.append_assoc]
      refine popArray_ok hn (le_trans (Nat.le_add_right _ _) hroom)
        (by simp only [List.length_append, length_leBytes]; omega) ?_
      -- The elements are shorter than the array, so the bound that is left is enough for them.
      refine popElements_ok (N := bs.length + rest.length) (by omega) ?_ hvs
        (Nat.le_sub_of_add_le' hroom) (List.length_append).le
      exact fun w b' rest' hw hlen ↦ ih w b' rest' hw (by omega) (by omega)

/-- The element loop of an array that is at a hazard. -/
theorem popVariantFuel_variantArray_fault {fuel n : ℕ} {vs : List VARIANT} {bs rest : List UInt8}
    (ih : ∀ tail, Hazard cv f pre.length tail → tail.length < fuel →
      pre.length + tail.length < 2 ^ 32 → popVariantFuel cv f pre.length fuel (pre ++ tail) = .fault)
    (hn : n < 2 ^ 32) (hvs : Chunked (Item cv f) vs bs) (hlt : vs.length < n)
    (hstuck : sizeofSAFEARRAY ≤ safeArrayBytes 24 n → ElementStuck cv f pre.length
      (safeArrayBytes 24 n - sizeofSAFEARRAY) vs.length rest)
    (hfuel : (leBytes 4 n ++ (bs ++ rest)).length < fuel)
    (hsize : pre.length + (leBytes 4 n ++ (bs ++ rest)).length < 2 ^ 32) :
    popPayload cv f pre.length (popVariantFuel cv f pre.length fuel) .variantArray
      (pre ++ (leBytes 4 n ++ (bs ++ rest))) = .fault := by
  refine popArray_fault hn hsize fun hcreate ↦ ?_
  simp only [List.length_append, length_leBytes] at hsize hfuel
  refine popElements_fault (N := bs.length + rest.length) ?_ ?_ hvs hlt (hstuck hcreate)
    (List.length_append).le
  · exact fun w b' rest' hw hlen ↦ popVariantFuel_ok fuel w b' rest' hw (by omega) (by omega)
  · exact fun tail hlen htail ↦ ih tail htail (by omega) (by omega)

theorem popVariantFuel_fault : ∀ (fuel : ℕ) (tail : List UInt8), Hazard cv f pre.length tail →
    tail.length < fuel → pre.length + tail.length < 2 ^ 32 →
    popVariantFuel cv f pre.length fuel (pre ++ tail) = .fault := by
  intro fuel
  induction fuel with
  | zero => exact fun _ _ h ↦ absurd h (Nat.not_lt_zero _)
  | succ fuel ih =>
    intro tail htail hfuel hsize
    cases htail with
    | tag hwrap => exact bind_fault (popNumber_fault (by decide) hsize hwrap)
    | @scalar t rest hwrap =>
      rw [popVariantFuel_tag (k := .scalar t) (kindOf_of_vt? rfl) (Kind.vt_lt (k := .scalar t) rfl)
        hsize]
      rw [List.length_append] at hsize
      have ht : t.size < 2 ^ 32 := lt_of_le_of_lt t.size_le (by decide)
      exact bind_fault (bind_fault (popInto_fault ht (by omega) hwrap))
    | @clsid rest hwrap =>
      rw [popVariantFuel_tag (k := .clsid) rfl (by decide) hsize]
      rw [List.length_append] at hsize
      refine bind_fault ?_
      rw [popPayload, popCLSID_eq]
      exact bind_fault (popInto_fault (by decide) (by omega) hwrap)
    | @bstr rest hrest =>
      rw [popVariantFuel_tag (k := .bstr) rfl (by decide) hsize]
      rw [List.length_append] at hsize
      refine bind_fault ?_
      by_cases hf : f.m_ToUtf8 = true
      · rw [popPayload_bstrAsUTF8 hf]
        exact popBSTRAsUTF8_fault hrest (by omega)
      · rw [popPayload_bstr (eq_false_of_ne_true hf)]
        exact bind_fault (popBSTR_fault hrest (by omega))
    | @textAsUTF8 raw utf8 rest hf hraw hconv hroom =>
      rw [popVariantFuel_tag (k := .bstr) rfl (by decide) hsize]
      rw [List.length_append, length_leBytes] at hsize
      refine bind_fault ?_
      rw [popPayload_bstrAsUTF8 hf]
      exact popBSTRAsUTF8_noRoom hraw hconv hroom (by omega)
    | @count vt rest hvt hk hwrap =>
      rw [popVariantFuel_tag rfl hvt hsize]
      rw [List.length_append] at hsize
      exact bind_fault (popPayload_count_fault hk _ (by omega) hwrap)
    | @i1AsBSTR n rest hf hn hshort =>
      rw [popVariantFuel_tag (k := .scalarArray .I1) rfl (by decide) hsize]
      rw [List.length_append, length_leBytes] at hsize
      refine bind_fault ?_
      rw [popPayload_i1AsBSTR hf]
      exact popI1ArrayAsBSTR_fault hn hshort (by omega)
    | @scalarArraySize t n rest hf hn hroom =>
      rw [popVariantFuel_tag (k := .scalarArray t) (kindOf_of_vt? rfl)
        (Kind.vt_lt (k := .scalarArray t) rfl) hsize]
      rw [List.length_append, length_leBytes] at hsize
      refine bind_fault ?_
      rw [popPayload_scalarArray hf]
      exact popScalarArray_noRoom hn hroom (by omega)
    | @scalarArray t n rest hf hn hwrap =>
      rw [popVariantFuel_tag (k := .scalarArray t) (kindOf_of_vt? rfl)
        (Kind.vt_lt (k := .scalarArray t) rfl) hsize]
      rw [List.length_append, length_leBytes] at hsize
      refine bind_fault ?_
      rw [popPayload_scalarArray hf]
      exact popScalarArray_fault hn hwrap (by omega)
    | @bstrArraySize n rest hn hroom =>
      rw [popVariantFuel_tag (k := .bstrArray) rfl (by decide) hsize]
      rw [List.length_append, length_leBytes] at hsize
      exact bind_fault (popArray_noRoom hn hroom (by omega))
    | @bstrArrayRoom n ss s bs b rest hn hss hs hlt hroom =>
      rw [popVariantFuel_tag (k := .bstrArray) rfl (by decide) hsize]
      rw [List.length_append, length_leBytes] at hsize
      refine bind_fault (popArray_fault hn (by omega) fun hcreate ↦ ?_)
      rw [List.length_append, length_leBytes] at hsize
      exact popBSTRs_fault hss hlt (.inr ⟨s, b, rest, hs, rfl, (noRoom_iff hcreate).1 hroom⟩)
        (by omega)
    | @bstrArray n ss bs rest hn hss hlt hrest =>
      rw [popVariantFuel_tag (k := .bstrArray) rfl (by decide) hsize]
      rw [List.length_append, length_leBytes] at hsize
      refine bind_fault (popArray_fault hn (by omega) fun hcreate ↦ ?_)
      rw [List.length_append, length_leBytes] at hsize
      exact popBSTRs_fault hss hlt (.inl hrest) (by omega)
    | @variantArraySize n rest hn hroom =>
      rw [popVariantFuel_tag (k := .variantArray) rfl (by decide) hsize]
      rw [List.length_append, length_leBytes] at hsize
      exact bind_fault (popArray_noRoom hn hroom (by omega))
    | @variantArrayRoom n vs bs rest hn hvs hlt hroom =>
      rw [popVariantFuel_tag (k := .variantArray) rfl (by decide) hsize]
      rw [List.length_append, length_leBytes] at hsize hfuel
      exact bind_fault (popVariantFuel_variantArray_fault ih hn hvs hlt
        (fun hcreate ↦ .inl ((noRoom_iff hcreate).1 hroom)) (by omega) (by omega))
    | @variantArray n vs bs rest hn hvs hlt hrest =>
      rw [popVariantFuel_tag (k := .variantArray) rfl (by decide) hsize]
      rw [List.length_append, length_leBytes] at hsize hfuel
      exact bind_fault (popVariantFuel_variantArray_fault ih hn hvs hlt
        (fun _ ↦ .inr hrest) (by omega) (by omega))

/-- The payload of any case, when the elements of an array of variants are read as they should. -/
theorem popPayload_reads {vt : ℕ} {pop : Pop (VARIANT × ℕ)} (hvt : vt < 2 ^ 16)
    (hsize : pre.length + tail.length < 2 ^ 32)
    (hpop : ∀ tail' : List UInt8, tail'.length ≤ tail.length → Meets pop (pre ++ tail')
      (fun x c ↦ ∃ b rest, Item cv f x.1 b ∧ tail' = b ++ rest ∧ x.2 = b.length ∧ c = pre ++ rest)
      (Hazard cv f pre.length tail')) :
    Reads cv f vt pre tail (popPayload cv f pre.length pop (kindOf vt)) := by
  rcases vt?_kindOf vt with hk | hk | hk
  · -- The count is read before the type is rejected.
    have harray : (kindOf vt).IsArray := by
      rw [hk]
      trivial
    rw [hk]
    refine (popCount_meets hvt harray hsize).bind ?_
    rintro _ _ -
    exact Meets.raise
  · rw [hk]
    exact Meets.raise
  · generalize kindOf vt = k at hk
    cases k with
    | empty =>
      cases hk
      exact Meets.pure ⟨[], tail, by rw [List.append_nil]; exact .empty, rfl, rfl, rfl⟩
    | null =>
      cases hk
      exact Meets.pure ⟨[], tail, by rw [List.append_nil]; exact .null, rfl, rfl, rfl⟩
    | scalar t =>
      cases hk
      exact scalar_reads t hsize
    | bstr =>
      cases hk
      by_cases hf : f.m_ToUtf8 = true
      · rw [popPayload_bstrAsUTF8 hf]
        exact popBSTRAsUTF8_reads hf hsize
      · have hf' := eq_false_of_ne_true hf
        rw [popPayload_bstr hf']
        refine ((popBSTR_meets hsize).mono (fun _ _ h ↦ h) ?_).bind ?_
        · rintro (hhazard | ⟨_, _, _, _, _, hroom⟩)
          · exact .bstr hhazard
          · exact absurd hroom (Nat.lt_irrefl 0)
        · rintro ⟨s, n⟩ _ ⟨b, rest, hs, rfl, hn, rfl, -⟩
          exact Meets.pure ⟨b, rest, .bstr hf' hs, rfl, hn, rfl⟩
    | clsid =>
      cases hk
      exact popCLSID_reads hsize
    | scalarArray t =>
      cases hk
      by_cases hf : (f.m_8ToW && t = .I1) = true
      · obtain ⟨hflag, ht⟩ := Bool.and_eq_true_iff.1 hf
        obtain rfl := of_decide_eq_true ht
        rw [popPayload_i1AsBSTR hflag]
        exact popI1ArrayAsBSTR_reads hflag hsize
      · have hf' := eq_false_of_ne_true hf
        rw [popPayload_scalarArray hf']
        exact popScalarArray_reads hf' hsize
    | bstrArray =>
      cases hk
      refine popArray_reads (F := fun n rest ↦ ∃ ss bs rest', Chunked BSTRItem ss bs ∧
        ss.length < n ∧ rest = bs ++ rest' ∧ BSTRStuck pre.length
          (safeArrayBytes 8 n - sizeofSAFEARRAY) (0 + ss.length) rest')
        hvt trivial hsize (fun n rest htail _ ↦ ?_) (fun ss bs hn hroom hss ↦ .bstrArray hn hroom hss)
        (fun n rest hn hroom ↦ .bstrArraySize hn hroom) ?_
      · rw [htail, List.length_append, length_leBytes] at hsize
        exact popBSTRs_meets (by omega)
      · rintro n rest hn hcreate ⟨ss, bs, rest, hss, hlt, rfl, hstuck⟩
        rw [Nat.zero_add] at hstuck
        rcases hstuck with hhazard | ⟨s, b, rest, hs, rfl, hroom⟩
        · exact .bstrArray hn hss hlt hhazard
        · exact .bstrArrayRoom hn hss hs hlt ((noRoom_iff hcreate).2 hroom)
    | variantArray =>
      cases hk
      refine popArray_reads (F := fun n rest ↦ ∃ vs bs rest', Chunked (Item cv f) vs bs ∧
        vs.length < n ∧ rest = bs ++ rest' ∧ ElementStuck cv f pre.length
          (safeArrayBytes 24 n - sizeofSAFEARRAY) (0 + vs.length) rest')
        hvt trivial hsize (fun n rest htail _ ↦ ?_) (fun vs bs hn hroom hvs ↦ .variantArray hn hroom hvs)
        (fun n rest hn hroom ↦ .variantArraySize hn hroom) ?_
      · rw [htail, List.length_append, length_leBytes] at hsize hpop
        exact popElements_meets (N := rest.length) (by omega)
          (fun tail' hlen ↦ hpop tail' (by omega)) le_rfl
      · rintro n rest hn hcreate ⟨vs, bs, rest, hvs, hlt, rfl, hstuck⟩
        rw [Nat.zero_add] at hstuck
        rcases hstuck with hroom | hhazard
        · exact .variantArrayRoom hn hvs hlt ((noRoom_iff hcreate).2 hroom)
        · exact .variantArray hn hvs hlt hhazard
    | unsupportedArray => cases hk
    | unsupported => cases hk

theorem popVariantFuel_meets : ∀ (fuel : ℕ) (tail : List UInt8), tail.length < fuel →
    pre.length + tail.length < 2 ^ 32 →
    Meets (popVariantFuel cv f pre.length fuel) (pre ++ tail)
      (fun x c ↦ ∃ b rest, Item cv f x.1 b ∧ tail = b ++ rest ∧ x.2 = b.length ∧ c = pre ++ rest)
      (Hazard cv f pre.length tail) := by
  intro fuel
  induction fuel with
  | zero => exact fun _ h ↦ absurd h (Nat.not_lt_zero _)
  | succ fuel ih =>
    intro tail hfuel hsize
    refine ((popNumber_meets (by decide) hsize).mono (fun _ _ h ↦ h) Hazard.tag).bind ?_
    rintro vt _ ⟨rest, rfl, hvt, rfl⟩
    rw [List.length_append, length_leBytes] at hsize hfuel
    refine Meets.bind (popPayload_reads hvt (by omega) fun tail' hlen ↦
      ih tail' (by omega) (by omega)) ?_
    rintro ⟨v, n⟩ _ ⟨body, rest, hv, rfl, hn, rfl⟩
    refine Meets.pure ⟨leBytes 2 vt ++ body, rest, hv, (List.append_assoc _ _ _).symm, ?_, rfl⟩
    dsimp only at hn
    rw [hn]
    simp only [List.length_append, length_leBytes] at hsize ⊢
    omega

/-- **An item is read**: its value and length are returned and what surrounds it is left. -/
theorem popVariant_ok {v : VARIANT} {b : List UInt8} (hv : Item cv f v b)
    (hsize : (pre ++ (b ++ rest)).length < 2 ^ 32) :
    popVariant cv f pre.length (pre ++ (b ++ rest)) = .ok (v, b.length) (pre ++ rest) := by
  refine popVariantFuel_ok _ v b rest hv ?_ ?_
  · exact Nat.lt_succ_of_le (List.suffix_append pre (b ++ rest)).length_le
  · rwa [List.length_append] at hsize

/-- **At a hazard the reader is at fault.** -/
theorem popVariant_fault (h : Hazard cv f pre.length tail) (hsize : (pre ++ tail).length < 2 ^ 32) :
    popVariant cv f pre.length (pre ++ tail) = .fault := by
  refine popVariantFuel_fault _ tail h ?_ ?_
  · rw [List.length_append]
    omega
  · rwa [List.length_append] at hsize

/-- **On any bytes** a return has read an item, and a fault is at a hazard. -/
theorem popVariant_meets (hsize : (pre ++ tail).length < 2 ^ 32) :
    Meets (popVariant cv f pre.length) (pre ++ tail)
      (fun x c ↦ ∃ b rest, Item cv f x.1 b ∧ tail = b ++ rest ∧ x.2 = b.length ∧ c = pre ++ rest)
      (Hazard cv f pre.length tail) := by
  rw [List.length_append] at hsize
  refine popVariantFuel_meets _ tail ?_ hsize
  rw [List.length_append]
  omega

/-- `CUQueue::Pop(CComVariant&, position)`: the position is not passed on. -/
def popCComVariant (cv : Converters) (f : Flags) (_position : ℕ) : Pop (VARIANT × ℕ) :=
  popVariant cv f 0

/-- Whatever position is asked for, the item at the front is popped. -/
theorem popCComVariant_ok {v : VARIANT} {b : List UInt8} (hv : Item cv f v b) (position : ℕ)
    (hsize : (b ++ rest).length < 2 ^ 32) :
    popCComVariant cv f position (b ++ rest) = .ok (v, b.length) rest :=
  by
  have hok : popVariant cv f ([] : List UInt8).length ([] ++ (b ++ rest)) = _ :=
    popVariant_ok hv hsize
  exact hok

end SocketPro.Buffer
