import SocketPro.Buffer.VariantRoundTrip
import SocketPro.Foundation.Decode

/-!
# Database values on the wire

`CDBVariant` of `udatabase.h` is a `VARIANT` with a tag that tells a GUID from other sixteen bytes.
Its `operator<<` writes a GUID as `VT_CLSID` with the bytes behind it, and everything else as the
`VARIANT` it is; its `operator>>` looks at the tag first to set `VtExt`.

**What is read back.** `pop_decodes`: a field is read from the front as what `received` makes of
it, which is the field itself unless the buffer turns texts in UTF-8 into UTF-16.
-/

namespace SocketPro.Database

open Bytes Buffer Machine

/-- `tagVTExt`. -/
inductive tagVTExt
  | vteNormal
  | vteGuid
deriving DecidableEq, Repr

/-- `sizeof (GUID)`. -/
abbrev sizeofGUID : ℕ := 16

/-- A `VARIANT` of a database and its extension tag. -/
structure CDBVariant where
  value : VARIANT
  VtExt : tagVTExt
deriving Repr

namespace CDBVariant

/-- `CDBVariant()`. -/
def null : CDBVariant := ⟨.null, .vteNormal⟩

/-- The bytes of a GUID, if the value is written as one. -/
def guid? : CDBVariant → Option (List UInt8)
  | ⟨.scalarArray .UI1 cElements pvData, .vteGuid⟩ =>
    if cElements = sizeofGUID then some (pvData.take sizeofGUID) else none
  | _ => none

/-- `operator<<(CUQueue&, const CDBVariant&)`. -/
def push (su : CUQueue) (vt : CDBVariant) : Effect CUException CUQueue Unit :=
  match vt.guid? with
  | some buffer => do
    pushBytes (leBytes 2 VT_CLSID)
    pushBytes buffer
  | none => pushVariant su vt.value

/-- The byte strings that `operator<<` appends. -/
def pieces (vt : CDBVariant) : List (List UInt8) :=
  match vt.guid? with
  | some buffer => [leBytes 2 VT_CLSID, buffer]
  | none => vt.value.pieces

/-- The bytes of a value on the wire. -/
def bytes (vt : CDBVariant) : List UInt8 := vt.pieces.flatten

/-- `operator>>(CUQueue&, CDBVariant&)`. -/
def pop (cv : Converters) (f : Flags) : Pop CDBVariant := fun c ↦
  let vte : tagVTExt :=
    if 2 + sizeofGUID ≤ c.length ∧ ofLE (c.take 2) = VT_CLSID then .vteGuid else .vteNormal
  (popVariant cv f 0 >>= fun x ↦ pure ⟨x.1, vte⟩) c

/-! ### Marks -/

/-- A value as its constructors build it: `VtExt` marks a GUID only where there are sixteen bytes. -/
structure WellFormed (vt : CDBVariant) : Prop where
  value : vt.value.WellFormed
  guid : vt.VtExt = .vteGuid → ∃ data, vt.value = .scalarArray .UI1 sizeofGUID data

theorem guid?_eq_some {vt : CDBVariant} {buffer : List UInt8} (h : vt.guid? = some buffer)
    (hv : vt.value.WellFormed) :
    vt = ⟨.scalarArray .UI1 sizeofGUID buffer, .vteGuid⟩ ∧ buffer.length = sizeofGUID := by
  unfold guid? at h
  split at h
  · next n data =>
    split at h
    · next hn =>
      cases hv with
      | scalarArray _ hdata =>
        subst hn
        have hlen : data.length = sizeofGUID := hdata
        have hbuffer : data = buffer := by
          rw [← Option.some_inj, ← h, ← hlen, List.take_length]
        exact ⟨by rw [hbuffer], hbuffer ▸ hlen⟩
    · cases h
  · cases h

theorem bytes_of_guid {vt : CDBVariant} {buffer : List UInt8} (h : vt.guid? = some buffer) :
    vt.bytes = leBytes 2 VT_CLSID ++ buffer := by
  simp [bytes, pieces, h]

theorem bytes_of_normal {vt : CDBVariant} (h : vt.guid? = none) : vt.bytes = vt.value.encode := by
  simp only [bytes, pieces, h]
  rfl

/-- A value that is not written as a GUID is not marked as one. -/
theorem WellFormed.normal {vt : CDBVariant} (hv : vt.WellFormed) (h : vt.guid? = none) :
    vt.VtExt = .vteNormal := by
  obtain ⟨value, vte⟩ := vt
  cases vte with
  | vteNormal => rfl
  | vteGuid =>
    obtain ⟨data, hdata⟩ := hv.guid rfl
    change value = _ at hdata
    subst hdata
    cases h

/-- The tag that the reader looks at. -/
theorem take_tag {n : ℕ} (hn : n < 2 ^ 16) (tail : List UInt8) :
    ofLE ((leBytes 2 n ++ tail).take 2) = n := by
  rw [List.take_left' (length_leBytes 2 n), ofLE_leBytes_of_lt hn]

theorem vt_ne_clsid {v : VARIANT} (hv : v.WellFormed) : v.vt < 2 ^ 16 ∧ v.vt ≠ VT_CLSID := by
  have htags : ∀ t : ScalarVT, (t.vt < 2 ^ 16 ∧ t.vt ≠ VT_CLSID) ∧
      VT_ARRAY + t.vt < 2 ^ 16 ∧ VT_ARRAY + t.vt ≠ VT_CLSID := by
    intro t
    cases t <;> decide
  cases hv with
  | @scalar t _ => exact (htags t).1
  | @scalarArray t _ _ => exact (htags t).2
  | _ => constructor <;> simp [VARIANT.vt, VT_ARRAY, VT_BSTR, VT_VARIANT, VT_CLSID]

/-- **The mark is read from the tag**: what is written as a GUID has sixteen bytes behind it, and
nothing else has its tag. -/
theorem WellFormed.vte {vt : CDBVariant} (hv : vt.WellFormed) (rest : List UInt8) :
    (if 2 + sizeofGUID ≤ (vt.bytes ++ rest).length ∧ ofLE ((vt.bytes ++ rest).take 2) = VT_CLSID
      then tagVTExt.vteGuid else .vteNormal) = vt.VtExt := by
  cases h : vt.guid? with
  | some buffer =>
    obtain ⟨rfl, hbuffer⟩ := guid?_eq_some h hv.value
    rw [bytes_of_guid h, List.append_assoc, take_tag (by decide), if_pos]
    refine ⟨?_, rfl⟩
    simp only [List.length_append, length_leBytes]
    omega
  | none =>
    obtain ⟨hlt, hne⟩ := vt_ne_clsid hv.value
    rw [bytes_of_normal h, VARIANT.encode_eq, List.append_assoc, take_tag hlt,
      if_neg fun hc ↦ hne hc.2, hv.normal h]

/-! ### Fields -/

/-- A value of a column: a null, a scalar, a string, an ASCII string or a binary, which may be a
GUID. -/
inductive Flat : VARIANT → Prop
  | empty : Flat .empty
  | null : Flat .null
  | scalar {t : ScalarVT} {raw : List UInt8} : Flat (.scalar t raw)
  | bstr {s : Option (List UInt16)} : Flat (.bstr s)
  | ascii {n : ℕ} {data : List UInt8} : Flat (.scalarArray .I1 n data)
  | binary {n : ℕ} {data : List UInt8} : Flat (.scalarArray .UI1 n data)

/-- A field as the constructors of `CDBVariant` build it: well formed, its array in memory that
`SafeArrayCreate` has computed without wrapping, and tagged as a GUID only if it is one. -/
structure Field (vt : CDBVariant) : Prop where
  flat : Flat vt.value
  wellFormed : vt.value.WellFormed
  fits : Fits vt.value
  guid : vt.VtExt = .vteGuid → ∃ data, vt.value = .scalarArray .UI1 sizeofGUID data

/-- What a buffer with these flags makes of a field: an ASCII string becomes a UTF-16 string if
`m_8ToW` is set. -/
def received (cv : Converters) (f : Flags) (vt : CDBVariant) : CDBVariant :=
  match vt.value with
  | .scalarArray .I1 _ data =>
    bif f.m_8ToW then ⟨.bstr (some (cv.toBSTR data)), vt.VtExt⟩ else vt
  | _ => vt

theorem Field.marked {vt : CDBVariant} (hv : vt.Field) : vt.WellFormed := ⟨hv.wellFormed, hv.guid⟩

theorem received_noFlags (cv : Converters) (vt : CDBVariant) : received cv noFlags vt = vt := by
  unfold received
  split <;> rfl

/-! ### Writing -/

theorem push_inserts (su : CUQueue) {vt : CDBVariant} (hv : vt.value.WellFormed)
    (hlen : vt.value.encode.length < 2 ^ 32) (q : CUQueue) :
    Inserts q q.size vt.pieces (push su vt q) := by
  rw [push, pieces]
  cases vt.guid? with
  | some buffer =>
    show Inserts q q.size ([leBytes 2 VT_CLSID] ++ [buffer]) _
    exact Inserts.append_end (pushBytes_inserts q _) fun q' ↦ pushBytes_inserts q' _
  | none => exact pushVariant_inserts su hv hlen q

/-- A GUID is shorter on the wire than the array it is. -/
theorem length_encode_le {vt : CDBVariant} (hv : vt.value.WellFormed) :
    vt.value.encode.length ≤ vt.bytes.length + 4 := by
  cases h : vt.guid? with
  | some buffer =>
    obtain ⟨rfl, hlen⟩ := guid?_eq_some h hv
    have harray : buffer.length = sizeofGUID * ScalarVT.UI1.size := hlen
    rw [bytes_of_guid h, encode_scalarArray _ harray]
    simp only [List.length_append, length_leBytes]
    omega
  | none =>
    rw [bytes_of_normal h]
    exact Nat.le_add_right _ _

/-! ### Reading -/

variable {cv : Converters} {f : Flags}

/-- The bytes of a field are an item for what is received. -/
theorem Field.item {vt : CDBVariant} (hv : vt.Field) (hf : f.m_ToUtf8 = false)
    (hlen : vt.bytes.length < 2 ^ 32) : Item cv f (received cv f vt).value vt.bytes := by
  cases h : vt.guid? with
  | some buffer =>
    obtain ⟨rfl, hbuffer⟩ := guid?_eq_some h hv.wellFormed
    rw [bytes_of_guid h]
    exact Item.clsid hbuffer
  | none =>
    rw [bytes_of_normal h] at hlen ⊢
    obtain ⟨hflat, hwf, hfits, -⟩ := hv
    obtain ⟨value, vte⟩ := vt
    dsimp only at hflat hwf hfits hlen ⊢
    -- A scalar array of one byte elements: its count is its length in bytes.
    have harray : ∀ {t : ScalarVT} {n : ℕ} {data : List UInt8}, t.size = 1 →
        (VARIANT.scalarArray t n data).WellFormed →
          n < 2 ^ 32 ∧ data.length = n ∧ n * t.size = n := by
      intro t n data ht hwf
      cases hwf with
      | scalarArray hn hdata => exact ⟨hn, by rw [hdata, ht, Nat.mul_one], by rw [ht, Nat.mul_one]⟩
    cases hflat with
    | empty => exact .empty
    | null => exact .null
    | scalar =>
      cases hwf with
      | scalar hraw =>
        rw [VARIANT.encode, VARIANT.pieces, List.flatten_cons, List.flatten_singleton]
        exact .scalar hraw
    | bstr => exact .bstr hf (encodeBSTR_item (length_payload_lt hlen))
    | ascii =>
      obtain ⟨hn, hdata, hsize⟩ := harray rfl hwf
      rw [encode_scalarArray .I1 (hdata.trans hsize.symm)]
      cases h8 : f.m_8ToW with
      | true =>
        simp only [received, h8, cond_true]
        rw [← hdata]
        exact .i1AsBSTR h8 (hdata ▸ hn)
      | false =>
        simp only [received, h8, cond_false]
        refine .scalarArray (by rw [h8, Bool.false_and]) hn (ArrayFits.create hfits) ?_
        rw [hdata, hsize, Nat.mod_eq_of_lt hn]
    | binary =>
      obtain ⟨hn, hdata, hsize⟩ := harray rfl hwf
      rw [encode_scalarArray .UI1 (hdata.trans hsize.symm)]
      refine .scalarArray (by simp) hn (ArrayFits.create hfits) ?_
      rw [hdata, hsize, Nat.mod_eq_of_lt hn]

/-- **A field is read from the front** as what is received of it. -/
theorem pop_decodes (cv : Converters) {vt : CDBVariant} (hv : vt.Field) (hf : f.m_ToUtf8 = false) :
    Decodes (2 ^ 32) (pop cv f) vt.bytes (received cv f vt) := by
  intro rest hrest
  have hlen : vt.bytes.length < 2 ^ 32 := by
    rw [List.length_append] at hrest
    omega
  have hok : popVariant cv f ([] : List UInt8).length ([] ++ (vt.bytes ++ rest)) = _ :=
    popVariant_ok (hv.item hf hlen) hrest
  rw [List.length_nil, List.nil_append, List.nil_append] at hok
  have hext : (received cv f vt).VtExt = vt.VtExt := by
    unfold received
    split
    · cases f.m_8ToW <;> rfl
    · rfl
  rw [pop, Effect.bind_ok hok, hv.marked.vte, ← hext]
  rfl

/-- No value is written as nothing. -/
theorem bytes_ne_nil (vt : CDBVariant) : vt.bytes ≠ [] := by
  cases h : vt.guid? with
  | some buffer =>
    rw [bytes_of_guid h]
    nofun
  | none =>
    rw [bytes_of_normal h, VARIANT.encode_eq]
    nofun

end CDBVariant

end SocketPro.Database
