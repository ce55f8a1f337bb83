import SocketPro.Buffer.VariantInsert
import SocketPro.Buffer.VariantSafety

/-!
# What is inserted at a position is popped from it

`RoundTrips` is the contract of the pair `Insert(const VARIANT&, p)` and `Pop(VARIANT&, p)`: the
bytes that `Push` appends to an empty buffer go to the position, and popping them gives the value
and the content back.

The writer and the reader meet in the wire format: `encode_item` says that the bytes of a value are
an item for it, whatever the writer did to get them there.

**Exactly when it holds** (`insert_pop_iff`). Three things are needed: the capacities computed on
the way suffice (`RoomFor`); the memory `SafeArrayCreate` computes for the arrays of the value holds
their elements (`Fits`); and for a `VT_BSTR` the bytes behind the position commute with its text,
because `operator<<` appends the text at the end of the buffer (`AppendsInPlace`). At the end of the
buffer the last one is always true.
-/

namespace SocketPro.Buffer

open Bytes Machine Effect

/-- The conversion flags off. -/
abbrev noFlags : Flags := ⟨false, false⟩

/-! ### The bytes of a value are an item -/

/-- The memory `SafeArrayCreate` asks for holds the header and the elements. -/
def ArrayFits (cb n : ℕ) : Prop := sizeofSAFEARRAY + cb * n ≤ safeArrayBytes cb n

instance (cb n : ℕ) : Decidable (ArrayFits cb n) := Nat.decLe _ _

mutual

/-- Every array of the value fits the memory that the reader reserves for it. -/
def Fits : VARIANT → Prop
  | .scalarArray t n _ => ArrayFits t.size n
  | .bstrArray ss => ArrayFits 8 ss.length
  | .variantArray vs => ArrayFits 24 vs.length ∧ ElementsFit vs
  | _ => True

/-- Every array of every element fits. -/
def ElementsFit : List VARIANT → Prop
  | [] => True
  | v :: vs => Fits v ∧ ElementsFit vs

end

mutual

/-- The conversion flags of the reader leave the value as it is: a `VT_BSTR` is converted if
`m_ToUtf8` is set, and an array of `VT_I1` if `m_8ToW` is. -/
def Kept (f : Flags) : VARIANT → Prop
  | .bstr _ => f.m_ToUtf8 = false
  | .scalarArray t _ _ => t = .I1 → f.m_8ToW = false
  | .variantArray vs => ElementsKept f vs
  | _ => True

/-- Every element is left as it is. -/
def ElementsKept (f : Flags) : List VARIANT → Prop
  | [] => True
  | v :: vs => Kept f v ∧ ElementsKept f vs

end

mutual

theorem kept_noFlags : ∀ v : VARIANT, Kept noFlags v
  | .bstr _ => rfl
  | .scalarArray _ _ _ => fun _ ↦ rfl
  | .variantArray vs => elementsKept_noFlags vs
  | .empty | .null | .scalar _ _ | .bstrArray _ | .unsupported _ | .unsupportedArray _ _ => trivial

theorem elementsKept_noFlags : ∀ vs : List VARIANT, ElementsKept noFlags vs
  | [] => trivial
  | v :: vs => ⟨kept_noFlags v, elementsKept_noFlags vs⟩

end

theorem encodeBSTR_item {s : Option (List UInt16)} (hlen : (encodeBSTR s).length < 2 ^ 32) :
    BSTRItem s (encodeBSTR s) := by
  cases s with
  | none =>
    rw [encodeBSTR_none]
    exact .null
  | some us =>
    rw [encodeBSTR_some] at hlen ⊢
    rw [List.length_append, length_leBytes] at hlen
    have hraw : (utf16Bytes us).length < UQUEUE_NULL_LENGTH := by
      have hnull : UQUEUE_NULL_LENGTH = 0xffffffff := rfl
      omega
    have hitem := BSTRItem.text hraw
    rwa [utf16Units_utf16Bytes, length_utf16Bytes] at hitem

theorem encodeBSTRs_chunked : ∀ (ss : List (Option (List UInt16))),
    (ss.flatMap bstrPieces).flatten.length < 2 ^ 32 →
      Chunked BSTRItem ss (ss.flatMap bstrPieces).flatten
  | [], _ => .nil
  | s :: ss, hlen => by
    rw [List.flatMap_cons, List.flatten_append] at hlen ⊢
    rw [List.length_append] at hlen
    have hhead : (encodeBSTR s).length < 2 ^ 32 := lt_of_le_of_lt (Nat.le_add_right _ _) hlen
    exact .cons (encodeBSTR_item hhead)
      (encodeBSTRs_chunked ss (lt_of_le_of_lt (Nat.le_add_left _ _) hlen))

theorem ArrayFits.create {cb n : ℕ} (h : ArrayFits cb n) :
    sizeofSAFEARRAY ≤ safeArrayBytes cb n := le_trans (Nat.le_add_right _ _) h

theorem encode_scalarArray (t : ScalarVT) {n : ℕ} {data : List UInt8}
    (h : data.length = n * t.size) :
    (VARIANT.scalarArray t n data).encode = leBytes 2 (VT_ARRAY + t.vt) ++ (leBytes 4 n ++ data) := by
  rw [VARIANT.encode, VARIANT.pieces]
  split
  · next h0 =>
    rw [h0, Nat.zero_mul] at h
    rw [List.length_eq_zero_iff.1 h, h0]
    rfl
  · simp

theorem encode_bstrArray (ss : List (Option (List UInt16))) :
    (VARIANT.bstrArray ss).encode = leBytes 2 (VT_ARRAY + VT_BSTR) ++
      (leBytes 4 ss.length ++ (ss.flatMap bstrPieces).flatten) := rfl

theorem encode_variantArray (vs : List VARIANT) :
    (VARIANT.variantArray vs).encode = leBytes 2 (VT_ARRAY + VT_VARIANT) ++
      (leBytes 4 vs.length ++ VARIANT.encodeElements vs) := rfl

mutual

/-- **The bytes of a value are an item that stands for it**, if its arrays fit and it is kept. -/
theorem encode_item (cv : Converters) {f : Flags} : ∀ (v : VARIANT), v.WellFormed → Fits v →
    Kept f v → v.encode.length < 2 ^ 32 → Item cv f v v.encode
  | .empty, _, _, _, _ => .empty
  | .null, _, _, _, _ => .null
  | .scalar t raw, hv, _, _, _ => by
    have hraw : raw.length = t.size := by
      cases hv with
      | scalar hraw => exact hraw
    rw [VARIANT.encode, VARIANT.pieces, List.flatten_cons, List.flatten_singleton]
    exact .scalar hraw
  | .bstr s, _, _, hkept, hlen => .bstr hkept (encodeBSTR_item (length_payload_lt hlen))
  | .scalarArray t n data, hv, hfits, hkept, hlen => by
    obtain ⟨hn, hdata⟩ : n < 2 ^ 32 ∧ data.length = n * t.size := by
      cases hv with
      | scalarArray hn hdata => exact ⟨hn, hdata⟩
    have hfits' : ArrayFits t.size n := hfits
    rw [encode_scalarArray t hdata] at hlen ⊢
    simp only [List.length_append, length_leBytes] at hlen
    have hflag : (f.m_8ToW && t = .I1) = false := by
      by_cases ht : t = .I1
      · rw [hkept ht, Bool.false_and]
      · simp [ht]
    refine .scalarArray hflag hn hfits'.create ?_
    rw [← hdata, Nat.mod_eq_of_lt (by omega)]
  | .bstrArray ss, hv, hfits, _, hlen => by
    have hn : ss.length < 2 ^ 32 := by
      cases hv with
      | bstrArray hn _ => exact hn
    rw [encode_bstrArray] at hlen ⊢
    simp only [List.length_append] at hlen
    exact .bstrArray hn hfits (encodeBSTRs_chunked ss (by omega))
  | .variantArray vs, hv, hfits, hkept, hlen => by
    obtain ⟨hn, hvs⟩ : vs.length < 2 ^ 32 ∧ ∀ v ∈ vs, v.WellFormed := by
      cases hv with
      | variantArray hn hvs => exact ⟨hn, hvs⟩
    rw [encode_variantArray] at hlen ⊢
    simp only [List.length_append] at hlen
    exact .variantArray hn hfits.1 (encodeElements_chunked cv vs hvs hfits.2 hkept (by omega))
  | .unsupported _, hv, _, _, _ => nomatch hv
  | .unsupportedArray _ _, hv, _, _, _ => nomatch hv

theorem encodeElements_chunked (cv : Converters) {f : Flags} : ∀ (vs : List VARIANT),
    (∀ v ∈ vs, v.WellFormed) → ElementsFit vs → ElementsKept f vs →
      (VARIANT.encodeElements vs).length < 2 ^ 32 →
      Chunked (Item cv f) vs (VARIANT.encodeElements vs)
  | [], _, _, _, _ => .nil
  | v :: vs, hvs, hfits, hkept, hlen => by
    rw [VARIANT.encodeElements_cons] at hlen ⊢
    rw [List.length_append] at hlen
    exact .cons (encode_item cv v (hvs v List.mem_cons_self) hfits.1 hkept.1 (by omega))
      (encodeElements_chunked cv vs (fun w hw ↦ hvs w (List.mem_cons_of_mem v hw)) hfits.2 hkept.2
        (by omega))

end

/-! ### The arrays of an item fit -/

theorem chunked_elements {R : VARIANT → List UInt8 → Prop} {v : VARIANT} {vs : List VARIANT}
    {bs : List UInt8} (h : Chunked R (v :: vs) bs) :
    (∃ b, R v b) ∧ ∃ bs', Chunked R vs bs' := by
  cases h with
  | cons hhead htail => exact ⟨⟨_, hhead⟩, ⟨_, htail⟩⟩

mutual

/-- A value that is read from some item has arrays that fit. -/
theorem fits_of_item (cv : Converters) {f : Flags} : ∀ (v : VARIANT), v.WellFormed →
    v.encode.length < 2 ^ 32 → (∃ b, Item cv f v b) → Fits v
  | .empty, _, _, _ => trivial
  | .null, _, _, _ => trivial
  | .scalar _ _, _, _, _ => trivial
  | .bstr _, _, _, _ => trivial
  | .scalarArray t n data, hv, hlen, hb => by
    have hdata : data.length = n * t.size := by
      cases hv with
      | scalarArray _ hdata => exact hdata
    have hcreate : sizeofSAFEARRAY ≤ safeArrayBytes t.size n := by
      obtain ⟨b, hb⟩ := hb
      cases hb with
      | scalarArray _ _ hcreate _ => exact hcreate
      | clsid _ => decide
      | textAsUTF8 _ _ _ hroom => exact le_trans (Nat.le_add_right _ _) hroom
    rw [encode_scalarArray t hdata] at hlen
    simp only [List.length_append, length_leBytes, hdata] at hlen
    have hmod : n * t.size % 2 ^ 32 = n * t.size := Nat.mod_eq_of_lt (by omega)
    have hle := le_safeArrayBytes hcreate (by omega)
    rw [hmod, Nat.mul_comm] at hle
    show ArrayFits t.size n
    unfold ArrayFits
    generalize t.size * n = x at *
    omega
  | .bstrArray ss, _, _, hb => by
    obtain ⟨b, hb⟩ := hb
    cases hb with
    | bstrArray _ hroom _ => exact hroom
  | .variantArray vs, hv, hlen, hb => by
    have hvs : ∀ v ∈ vs, v.WellFormed := by
      cases hv with
      | variantArray _ hvs => exact hvs
    rw [encode_variantArray] at hlen
    simp only [List.length_append] at hlen
    obtain ⟨b, hb⟩ := hb
    cases hb with
    | variantArray _ hroom hchunks =>
      exact ⟨hroom, elementsFit_of_chunked cv vs hvs (by omega) ⟨_, hchunks⟩⟩
  | .unsupported _, hv, _, _ => nomatch hv
  | .unsupportedArray _ _, hv, _, _ => nomatch hv

theorem elementsFit_of_chunked (cv : Converters) {f : Flags} : ∀ (vs : List VARIANT),
    (∀ v ∈ vs, v.WellFormed) → (VARIANT.encodeElements vs).length < 2 ^ 32 →
      (∃ bs, Chunked (Item cv f) vs bs) → ElementsFit vs
  | [], _, _, _ => trivial
  | v :: vs, hvs, hlen, hbs => by
    rw [VARIANT.encodeElements_cons, List.length_append] at hlen
    obtain ⟨bs, hbs⟩ := hbs
    obtain ⟨hhead, htail⟩ := chunked_elements hbs
    exact ⟨fits_of_item cv v (hvs v List.mem_cons_self) (by omega) hhead,
      elementsFit_of_chunked cv vs (fun w hw ↦ hvs w (List.mem_cons_of_mem v hw)) (by omega) htail⟩

end

/-! ### What is read from the bytes of a value -/

/-- The bytes of a string are the only text of it that they begin with. -/
theorem bstrItem_unique {s : Option (List UInt16)} {b x y : List UInt8}
    (hlen : (encodeBSTR s).length < 2 ^ 32) (hb : BSTRItem s b)
    (h : b ++ x = encodeBSTR s ++ y) : b = encodeBSTR s ∧ x = y := by
  refine List.append_inj h ?_
  cases hb with
  | null => rw [encodeBSTR_none]
  | @text raw hraw =>
    rw [encodeBSTR_some] at h hlen ⊢
    simp only [List.length_append, length_leBytes, length_utf16Bytes] at hlen ⊢
    rw [List.append_assoc, List.append_assoc] at h
    obtain ⟨hraw', -⟩ := leBytes_append_inj (lt_null hraw) (by omega) h
    omega

theorem bstrChunks_unique {ss : List (Option (List UInt16))} {bs : List UInt8}
    (h : Chunked BSTRItem ss bs) : ∀ {x y : List UInt8},
    (ss.flatMap bstrPieces).flatten.length < 2 ^ 32 →
    bs ++ x = (ss.flatMap bstrPieces).flatten ++ y →
      bs = (ss.flatMap bstrPieces).flatten ∧ x = y := by
  induction h with
  | nil => exact fun _ h ↦ ⟨rfl, h⟩
  | @cons s ss b bs hb _ ih =>
    intro x y hlen h
    rw [List.flatMap_cons, List.flatten_append] at hlen h ⊢
    rw [List.length_append] at hlen
    rw [List.append_assoc, List.append_assoc] at h
    have hhead : (encodeBSTR s).length < 2 ^ 32 := lt_of_le_of_lt (Nat.le_add_right _ _) hlen
    obtain ⟨rfl, hrest⟩ := bstrItem_unique hhead hb h
    obtain ⟨rfl, rfl⟩ := ih (by omega) hrest
    exact ⟨rfl, rfl⟩

/-- Two tags that differ. -/
theorem tag_ne {m n : ℕ} (hm : m < 2 ^ 16) (hn : n < 2 ^ 16) (hne : m ≠ n) {s t : List UInt8}
    (h : leBytes 2 m ++ s = leBytes 2 n ++ t) : False :=
  hne (leBytes_append_inj (w := 2) hm hn h).1

mutual

/-- **An item of a value at the beginning of its bytes** is all of them, and the value is kept: what
has been converted has had another tag. -/
theorem item_unique (cv : Converters) {f : Flags} : ∀ (v : VARIANT), v.WellFormed →
    v.encode.length < 2 ^ 32 → ∀ {b x y : List UInt8}, Item cv f v b → b ++ x = v.encode ++ y →
      b = v.encode ∧ x = y ∧ Kept f v
  | .empty, _, _, _, _, _, hb, h => by
    cases hb
    exact ⟨rfl, List.append_cancel_left h, trivial⟩
  | .null, _, _, _, _, _, hb, h => by
    cases hb with
    | null => exact ⟨rfl, List.append_cancel_left h, trivial⟩
    | nullAsUTF8 =>
      rw [List.append_assoc] at h
      exact (tag_ne (m := VT_BSTR) (n := VT_NULL) (by decide) (by decide) (by decide) h).elim
  | .scalar t raw, _, _, _, _, _, hb, h => by
    cases hb
    rw [VARIANT.encode, VARIANT.pieces, List.flatten_cons, List.flatten_singleton] at h ⊢
    exact ⟨rfl, List.append_cancel_left h, trivial⟩
  | .bstr s, _, hlen, _, _, _, hb, h => by
    have hencode : (VARIANT.bstr s).encode = leBytes 2 VT_BSTR ++ encodeBSTR s := rfl
    rw [hencode, List.append_assoc] at h
    rw [hencode]
    cases hb with
    | bstr hf hs =>
      rw [List.append_assoc] at h
      obtain ⟨rfl, hrest⟩ := bstrItem_unique (length_payload_lt hlen) hs (List.append_cancel_left h)
      exact ⟨rfl, hrest, hf⟩
    | i1AsBSTR =>
      rw [List.append_assoc] at h
      exact (tag_ne (n := VT_BSTR) (by decide) (by decide) (by decide) h).elim
  | .scalarArray t n data, hv, _, _, _, _, hb, h => by
    have hdata : data.length = n * t.size := by
      cases hv with
      | scalarArray _ hdata => exact hdata
    have htag : VT_ARRAY + t.vt < 2 ^ 16 ∧ VT_BSTR ≠ VT_ARRAY + t.vt ∧ VT_CLSID ≠ VT_ARRAY + t.vt := by
      cases t <;> decide
    rw [encode_scalarArray t hdata] at h ⊢
    cases hb with
    | scalarArray hflag _ _ _ =>
      refine ⟨rfl, List.append_cancel_left h, fun ht ↦ ?_⟩
      simpa [ht] using hflag
    | clsid =>
      rw [List.append_assoc, List.append_assoc] at h
      exact (tag_ne (by decide) htag.1 htag.2.2 h).elim
    | textAsUTF8 =>
      rw [List.append_assoc, List.append_assoc] at h
      exact (tag_ne (by decide) htag.1 htag.2.1 h).elim
  | .bstrArray ss, _, hlen, _, _, _, hb, h => by
    rw [encode_bstrArray] at h hlen ⊢
    simp only [List.length_append] at hlen
    cases hb with
    | bstrArray _ _ hss =>
      simp only [List.append_assoc] at h
      have h := List.append_cancel_left (List.append_cancel_left h)
      obtain ⟨rfl, hrest⟩ := bstrChunks_unique hss (by omega) h
      exact ⟨rfl, hrest, trivial⟩
  | .variantArray vs, hv, hlen, _, _, _, hb, h => by
    have hvs : ∀ v ∈ vs, v.WellFormed := by
      cases hv with
      | variantArray _ hvs => exact hvs
    rw [encode_variantArray] at h hlen ⊢
    simp only [List.length_append] at hlen
    cases hb with
    | variantArray _ _ hchunks =>
      simp only [List.append_assoc] at h
      have h := List.append_cancel_left (List.append_cancel_left h)
      obtain ⟨rfl, hrest, hkept⟩ := elements_unique cv vs hvs (by omega) hchunks h
      exact ⟨rfl, hrest, hkept⟩
  | .unsupported _, hv, _, _, _, _, _, _ => nomatch hv
  | .unsupportedArray _ _, hv, _, _, _, _, _, _ => nomatch hv

theorem elements_unique (cv : Converters) {f : Flags} : ∀ (vs : List VARIANT),
    (∀ v ∈ vs, v.WellFormed) → (VARIANT.encodeElements vs).length < 2 ^ 32 →
    ∀ {bs x y : List UInt8}, Chunked (Item cv f) vs bs →
      bs ++ x = VARIANT.encodeElements vs ++ y →
      bs = VARIANT.encodeElements vs ∧ x = y ∧ ElementsKept f vs
  | [], _, _, _, _, _, hbs, h => by
    cases hbs
    exact ⟨rfl, h, trivial⟩
  | v :: vs, hvs, hlen, _, _, _, hbs, h => by
    rw [VARIANT.encodeElements_cons] at hlen h ⊢
    rw [List.length_append] at hlen
    cases hbs with
    | cons hb hbs =>
      rw [List.append_assoc, List.append_assoc] at h
      obtain ⟨rfl, hrest, hkept⟩ := item_unique cv v (hvs v List.mem_cons_self) (by omega) hb h
      obtain ⟨rfl, rfl, hkepts⟩ :=
        elements_unique cv vs (fun w hw ↦ hvs w (List.mem_cons_of_mem v hw)) (by omega) hbs hrest
      exact ⟨rfl, rfl, hkept, hkepts⟩

end

/-! ### The round trip -/

/-- Inserting `v` at `p` puts the bytes `enc` there, and popping at `p` gives back the value, the
length of `enc` and the content. -/
def RoundTrips (cv : Converters) (su q : CUQueue) (p : ℕ) (v : VARIANT) (enc : List UInt8) : Prop :=
  ∃ q', insertVariant su v p q = .ok () q' ∧
    q'.content = q.content.take p ++ enc ++ q.content.drop p ∧
    popVariant cv noFlags p q'.content = .ok (v, enc.length) q.content

/-- For a string, its text appended behind `tail` is the same as inserted before it. -/
def AppendsInPlace (v : VARIANT) (tail : List UInt8) : Prop :=
  ∀ s, v = .bstr s → encodeBSTR s ++ tail = tail ++ encodeBSTR s

/-- `Push` appends the bytes of the value. -/
theorem content_of_push {su e e' : CUQueue} {v : VARIANT} (hv : v.WellFormed)
    (hlen : v.encode.length < 2 ^ 32) (h : pushVariant su v e = .ok () e') :
    e'.content = e.content ++ v.encode := by
  have hinserts := pushVariant_inserts su hv hlen e
  have hcontent : e.content ++ v.encode = insertAt e.size v.pieces.flatten e.content :=
    (insertAt_length _ _).symm
  rw [hcontent]
  have hok := hinserts.ok_iff (d := e'.content)
  exact (hok.1 ⟨e', h, rfl⟩).2.symm

/-- The writer puts the bytes of the value to the position exactly when there is room and a string
is appended in place. -/
theorem insertVariant_content_iff {su q : CUQueue} {p : ℕ} {v : VARIANT} (hsu : su.content = [])
    (hv : v.WellFormed) (hlen : v.encode.length < 2 ^ 32) (hp : p ≤ q.size) :
    (∃ q', insertVariant su v p q = .ok () q' ∧ q'.content = insertAt p v.encode q.content) ↔
      RoomFor su q p v ∧ AppendsInPlace v (q.content.drop p) := by
  by_cases hb : ∃ s, v = .bstr s
  · obtain ⟨s, rfl⟩ := hb
    have hroom : RoomFor su q p (.bstr s) ↔ (q.growth (VARIANT.bstr s).pieces).isSome := by
      unfold RoomFor
      split
      · exact ⟨fun h ↦ h.2, fun h ↦ ⟨rfl, h⟩⟩
      · rfl
    rw [(insertVariant_bstr (length_payload_lt hlen) hp).ok_iff, hroom]
    refine and_congr_right fun _ ↦ ?_
    have hsplit : insertAt p (leBytes 2 VT_BSTR) q.content ++ encodeBSTR s =
        (q.content.take p ++ leBytes 2 VT_BSTR) ++ (q.content.drop p ++ encodeBSTR s) := by
      simp [insertAt]
    have hencode : insertAt p (VARIANT.bstr s).encode q.content =
        (q.content.take p ++ leBytes 2 VT_BSTR) ++ (encodeBSTR s ++ q.content.drop p) := by
      simp [insertAt, VARIANT.encode, VARIANT.pieces, encodeBSTR]
    rw [hsplit, hencode, List.append_cancel_left_eq]
    constructor
    · intro h s' hs'
      cases hs'
      exact h.symm
    · exact fun h ↦ (h s rfl).symm
  · have hb' : ∀ s, v ≠ .bstr s := fun s hs ↦ hb ⟨s, hs⟩
    rw [insertVariant_iff hsu hv hlen hp (.inl hb')]
    exact ⟨fun h ↦ ⟨h, fun s hs ↦ absurd hs (hb' s)⟩, fun h ↦ h.1⟩

/-- The reader gives a value and the content back exactly when the arrays of the value fit. -/
theorem popVariant_encode_iff (cv : Converters) {p : ℕ} {v : VARIANT} {c : List UInt8}
    (hv : v.WellFormed) (hp : p ≤ c.length) (hsize : c.length + v.encode.length < 2 ^ 32) :
    popVariant cv noFlags p (insertAt p v.encode c) = .ok (v, v.encode.length) c ↔ Fits v := by
  obtain ⟨pre, rest, rfl, rfl⟩ : ∃ pre rest, c = pre ++ rest ∧ pre.length = p :=
    ⟨c.take p, c.drop p, (List.take_append_drop p c).symm, List.length_take_of_le hp⟩
  have hsize' : (pre ++ (v.encode ++ rest)).length < 2 ^ 32 := by
    simp only [List.length_append] at hsize ⊢
    omega
  rw [insertAt_append rfl]
  constructor
  · intro hpop
    obtain ⟨b, _, hitem, -⟩ := (popVariant_meets hsize').ok hpop
    exact fits_of_item cv v hv (by omega) ⟨b, hitem⟩
  · exact fun hfits ↦ popVariant_ok (encode_item cv v hv hfits (kept_noFlags v) (by omega)) hsize'

/-- **The round trip at a position**, for every value, content and position below the 32-bit limit:
it holds exactly when there is room on the way, the arrays of the value fit their memory, and a
string is appended in place. -/
theorem insert_pop_iff (cv : Converters) {su q e d : CUQueue} {p : ℕ} {v : VARIANT}
    (hsu : su.content = []) (he : e.content = []) (hv : v.WellFormed) (hp : p ≤ q.size)
    (hlimit : q.size + v.encode.length < 2 ^ 32) (henc : pushVariant su v e = .ok () d) :
    RoundTrips cv su q p v d.content ↔
      RoomFor su q p v ∧ Fits v ∧ AppendsInPlace v (q.content.drop p) := by
  have hlen : v.encode.length < 2 ^ 32 := by omega
  have hbytes : d.content = v.encode := by
    rw [content_of_push hv hlen henc, he, List.nil_append]
  have hcontent := insertVariant_content_iff hsu hv hlen hp
  rw [hbytes]
  constructor
  · rintro ⟨q', hq', hins, hpop⟩
    have hins' : q'.content = insertAt p v.encode q.content := hins
    obtain ⟨hroom, hplace⟩ := hcontent.1 ⟨q', hq', hins'⟩
    rw [hins'] at hpop
    exact ⟨hroom, (popVariant_encode_iff cv hv hp hlimit).1 hpop, hplace⟩
  · rintro ⟨hroom, hfits, hplace⟩
    obtain ⟨q', hq', hins⟩ := hcontent.2 ⟨hroom, hplace⟩
    refine ⟨q', hq', hins, ?_⟩
    rw [hins]
    exact (popVariant_encode_iff cv hv hp hlimit).2 hfits

/-- A buffer of 4096 bytes with some content. -/
def bufferOf (content : List UInt8) (h : content.length ≤ 4096) : CUQueue where
  content := content
  m_nMaxBuffer := 4096
  m_nHeadPos := 0
  m_nBlockSize := 4096
  fits := by omega
  max_lt := by decide

/-- An array of a number and a string between the first and the second byte of a content. -/
theorem insert_pop_array :
    RoundTrips asciiConverters (bufferOf [] (by decide)) (bufferOf [7, 9] (by decide)) 1
      (.variantArray [.scalar .I2 [5, 0], .bstr (some [65])])
      [12, 32, 2, 0, 0, 0, 2, 0, 5, 0, 8, 0, 2, 0, 0, 0, 65, 0] :=
  (insert_pop_iff (e := bufferOf [] (by decide))
    (d := bufferOf [12, 32, 2, 0, 0, 0, 2, 0, 5, 0, 8, 0, 2, 0, 0, 0, 65, 0] (by decide))
    asciiConverters rfl rfl
    (.variantArray (by decide) fun v hv ↦ by
      rcases List.mem_cons.1 hv with rfl | hv
      · exact .scalar rfl
      · rw [List.mem_singleton.1 hv]
        exact .bstr (by decide))
    (by decide) (by decide +kernel) (by decide +kernel)).2
    ⟨by decide +kernel, ⟨by decide +kernel, trivial, trivial, trivial⟩, fun _ hs ↦ nomatch hs⟩

/-- A string before a byte: the byte ends up between the tag and the text. -/
theorem not_insert_pop_string :
    ¬ ∀ (cv : Converters) (su q e d : CUQueue) (p : ℕ) (v : VARIANT), su.content = [] →
      e.content = [] → v.WellFormed → p ≤ q.size → q.size + v.encode.length < 2 ^ 32 →
      pushVariant su v e = .ok () d → RoundTrips cv su q p v d.content := by
  intro h
  obtain ⟨q', hq', hcontent, -⟩ := h asciiConverters (bufferOf [] (by decide))
    (bufferOf [7] (by decide)) (bufferOf [] (by decide))
    (bufferOf [8, 0, 2, 0, 0, 0, 65, 0] (by decide)) 0 (.bstr (some [65])) rfl rfl
    (.bstr (by decide)) (by decide) (by decide +kernel) (by decide +kernel)
  have hactual : insertVariant (bufferOf [] (by decide)) (.bstr (some [65])) 0
      (bufferOf [7] (by decide)) = .ok () (bufferOf [8, 0, 7, 2, 0, 0, 0, 65, 0] (by decide)) := by
    decide +kernel
  rw [hactual] at hq'
  cases hq'
  exact absurd hcontent (by decide)

end SocketPro.Buffer
