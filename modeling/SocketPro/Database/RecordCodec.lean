import Mathlib.Algebra.Order.BigOperators.Group.List
import SocketPro.Database.ColumnInfo
import SocketPro.Database.DBVariant

/-!
# Records on the wire

`operator<<` and `operator>>` of `udatabase.h` for values, column descriptions, parameter
descriptions and arrays of them, with the writer's side of `ColumnInfo` and `DBVariant`.

**What is written.** `pushValue_inserts`, `CDBColumnInfo.push_inserts` and
`CParameterInfo.push_inserts`: the bytes of a record are appended piece by piece.

**What is read.** A value comes back with its mark exactly if its arrays fit the memory that the
reader computes for them and the conversion flags of the buffer leave it as it is
(`CDBVariant.pop_decodesWhen`). The mark is found by looking at the tag, which stands in front of
sixteen bytes where it is that of a GUID. Descriptions always come back.

**The codec** (`records_roundTrip_iff`): beyond that only the capacities of the buffer have to
suffice, which they do in one that has grown by itself.
-/

namespace SocketPro.Database

open Bytes Buffer Machine

/-! ### Arrays of records -/

section Arrays

variable {α : Type}

/-- The loop over the records of an array. -/
def pushEach (push : α → Effect CUException CUQueue Unit) : List α → Effect CUException CUQueue Unit
  | [] => pure ()
  | a :: arr => do
    push a
    pushEach push arr

/-- `operator<<` of an array. -/
def pushArray (push : α → Effect CUException CUQueue Unit) (arr : List α) :
    Effect CUException CUQueue Unit := do
  let size := arr.length % 2 ^ 32
  pushBytes (leBytes 4 size)
  pushEach push (arr.take size)

/-- `operator>>` of an array, whose records are all read anew. -/
def popArray (pop : Pop α) : Pop (List α) := do
  let size ← popNumber 4 0
  repeatRead pop size

/-- The byte strings for an array. -/
def arrayPieces (pieces : α → List (List UInt8)) (arr : List α) : List (List UInt8) :=
  leBytes 4 arr.length :: arr.flatMap pieces

theorem arrayPieces_flatten (pieces : α → List (List UInt8)) (arr : List α) :
    (arrayPieces pieces arr).flatten =
      leBytes 4 arr.length ++ arr.flatMap fun a ↦ (pieces a).flatten := by
  rw [arrayPieces, List.flatten_cons, ← List.flatMap_id, List.flatMap_assoc]
  simp only [List.flatMap_id]

theorem pushEach_inserts {push : α → Effect CUException CUQueue Unit}
    {pieces : α → List (List UInt8)} {arr : List α}
    (h : ∀ a ∈ arr, ∀ q : CUQueue, Inserts q q.size (pieces a) (push a q)) (q : CUQueue) :
    Inserts q q.size (arr.flatMap pieces) (pushEach push arr q) := by
  induction arr generalizing q with
  | nil => exact Inserts.nil
  | cons a arr ih =>
    rw [List.flatMap_cons]
    exact (h a List.mem_cons_self q).append_end
      (ih fun c hc ↦ h c (List.mem_cons_of_mem a hc))

/-- **An array is appended** if its records are. -/
theorem pushArray_inserts {push : α → Effect CUException CUQueue Unit}
    {pieces : α → List (List UInt8)} {arr : List α} (hlen : arr.length < 2 ^ 32)
    (h : ∀ a ∈ arr, ∀ q : CUQueue, Inserts q q.size (pieces a) (push a q)) (q : CUQueue) :
    Inserts q q.size (arrayPieces pieces arr) (pushArray push arr q) := by
  rw [pushArray, Nat.mod_eq_of_lt hlen, List.take_length]
  exact (pushBytes_inserts q _).append_end (pushEach_inserts h)

/-- **An array comes back** exactly if each of its records does. -/
theorem popArray_decodesWhen {pop : Pop α} {enc : α → List UInt8} {P : α → Prop} {arr : List α}
    (hlen : arr.length < 2 ^ 32) (h : ∀ a ∈ arr, DecodesWhen (2 ^ 32) pop (enc a) a (P a)) :
    DecodesWhen (2 ^ 32) (popArray pop) (leBytes 4 arr.length ++ arr.flatMap enc) arr
      (∀ a ∈ arr, P a) :=
  (popNumber_decodes hlen).bind_when (DecodesWhen.repeatRead h)

end Arrays

/-! ### Values -/

namespace CDBVariant

/-- The value can be read back: its arrays fit, and the flags do not convert it. -/
def Readable (f : Flags) (vt : CDBVariant) : Prop := Fits vt.value ∧ Kept f vt.value

theorem readable_of_guid {f : Flags} {vt : CDBVariant} {buffer : List UInt8}
    (h : vt.guid? = some buffer) (hv : vt.value.WellFormed) : vt.Readable f := by
  obtain ⟨rfl, -⟩ := guid?_eq_some h hv
  have hfits : ArrayFits ScalarVT.UI1.size sizeofGUID := by decide
  exact ⟨hfits, nofun⟩

/-- The bytes of a value begin with an item for it exactly if it is readable, and the item is all
of them. -/
theorem item_iff (cv : Converters) {f : Flags} {vt : CDBVariant} (hv : vt.WellFormed)
    (hlen : vt.bytes.length < 2 ^ 32) {rest u : List UInt8} :
    (∃ b, Item cv f vt.value b ∧ vt.bytes ++ rest = b ++ u) ↔ vt.Readable f ∧ rest = u := by
  cases h : vt.guid? with
  | some buffer =>
    have hreadable : vt.Readable f := readable_of_guid h hv.value
    obtain ⟨rfl, hbuffer⟩ := guid?_eq_some h hv.value
    rw [bytes_of_guid h]
    constructor
    · rintro ⟨b, hb, heq⟩
      refine ⟨hreadable, ?_⟩
      cases hb with
      | clsid hraw =>
        exact (List.append_inj heq (by simp only [List.length_append])).2
      | scalarArray =>
        rw [List.append_assoc, List.append_assoc] at heq
        exact (tag_ne (by decide) (by decide) (by decide) heq).elim
    · rintro ⟨-, rfl⟩
      exact ⟨_, .clsid hbuffer, rfl⟩
  | none =>
    rw [bytes_of_normal h] at hlen ⊢
    constructor
    · rintro ⟨b, hb, heq⟩
      obtain ⟨rfl, hrest, hkept⟩ := item_unique cv vt.value hv.value hlen hb heq.symm
      exact ⟨⟨fits_of_item cv vt.value hv.value hlen ⟨_, hb⟩, hkept⟩, hrest.symm⟩
    · rintro ⟨⟨hfits, hkept⟩, rfl⟩
      exact ⟨_, encode_item cv vt.value hv.value hfits hkept hlen, rfl⟩

/-- **A value comes back** exactly if it is readable. -/
theorem pop_decodesWhen (cv : Converters) (f : Flags) {vt : CDBVariant} (hv : vt.WellFormed)
    (hlen : vt.bytes.length < 2 ^ 32) :
    DecodesWhen (2 ^ 32) (pop cv f) vt.bytes vt (vt.Readable f) := by
  intro rest u hrest
  rw [← item_iff cv hv hlen, pop, hv.vte]
  have hpop {b : List UInt8} (hb : Item cv f vt.value b) (heq : vt.bytes ++ rest = b ++ u) :
      popVariant cv f 0 (vt.bytes ++ rest) = .ok (vt.value, b.length) u := by
    rw [heq] at hrest ⊢
    have hok : popVariant cv f ([] : List UInt8).length ([] ++ (b ++ u)) = _ :=
      popVariant_ok hb hrest
    exact hok
  constructor
  · intro h
    obtain ⟨⟨value, n⟩, u', hx, hu⟩ := Effect.bind_eq_ok.1 h
    obtain ⟨hvalue, rfl⟩ : value = vt.value ∧ u' = u := by
      injection hu with hvt hu
      exact ⟨congrArg CDBVariant.value hvt, hu⟩
    have hmeets : Effect.Meets (popVariant cv f ([] : List UInt8).length)
      ([] ++ (vt.bytes ++ rest)) _ _ := popVariant_meets hrest
    obtain ⟨b, rest', hb, heq, -, rfl⟩ := hmeets.ok hx
    exact ⟨b, hvalue ▸ hb, heq⟩
  · rintro ⟨b, hb, heq⟩
    rw [Effect.bind_ok (hpop hb heq)]
    rfl

end CDBVariant

/-! ### Column descriptions -/

/-- `operator<<(const std::u16string&)`. -/
def pushString (str : List UInt16) : Effect CUException CUQueue Unit := do
  let size := 2 * str.length % 2 ^ 32
  pushBytes (leBytes 4 size)
  if size = 0 then pure () else pushBytes ((utf16Bytes str).take size)

/-- The byte strings for a string. -/
def stringPieces (str : List UInt16) : List (List UInt8) :=
  let size := 2 * str.length % 2 ^ 32
  [leBytes 4 size] ++ if size = 0 then [] else [(utf16Bytes str).take size]

theorem stringPieces_flatten (str : List UInt16) : (stringPieces str).flatten = stringBytes str := by
  rw [stringPieces, stringBytes, List.flatten_append, List.flatten_singleton]
  split
  · next h => rw [h, List.take_zero, List.flatten_nil]
  · rw [List.flatten_singleton]

theorem pushString_inserts (str : List UInt16) (q : CUQueue) :
    Inserts q q.size (stringPieces str) (pushString str q) := by
  refine (pushBytes_inserts q _).append_end fun q' ↦ ?_
  split
  · exact Inserts.nil
  · exact pushBytes_inserts q' _

/-- What a string takes on the wire. -/
def stringSize (str : List UInt16) : ℕ := 4 + 2 * str.length

theorem length_stringBytes {str : List UInt16} (h : ShortString str) :
    (stringBytes str).length = stringSize str := by
  rw [stringBytes, Nat.mod_eq_of_lt h, List.take_of_length_le (length_utf16Bytes str).le,
    List.length_append, length_leBytes, length_utf16Bytes, stringSize]

namespace CDBColumnInfo

/-- `operator<<(CUQueue&, const CDBColumnInfo&)`. -/
def push (info : CDBColumnInfo) : Effect CUException CUQueue Unit := do
  pushString info.DBPath
  pushString info.TablePath
  pushString info.DisplayName
  pushString info.OriginalName
  pushString info.DeclaredType
  pushString info.Collation
  pushBytes (leBytes 4 info.ColumnSize.toNat)
  pushBytes (leBytes 4 info.Flags.toNat)
  pushBytes (leBytes 2 info.DataType.toNat)
  pushBytes (leBytes 1 info.Precision.toNat)
  pushBytes (leBytes 1 info.Scale.toNat)

/-- The byte strings for a description. -/
def pieces (info : CDBColumnInfo) : List (List UInt8) :=
  stringPieces info.DBPath ++ (stringPieces info.TablePath ++ (stringPieces info.DisplayName ++
    (stringPieces info.OriginalName ++ (stringPieces info.DeclaredType ++
      (stringPieces info.Collation ++ ([leBytes 4 info.ColumnSize.toNat] ++
        ([leBytes 4 info.Flags.toNat] ++ ([leBytes 2 info.DataType.toNat] ++
          ([leBytes 1 info.Precision.toNat] ++ [leBytes 1 info.Scale.toNat])))))))))

/-- What a description takes on the wire. -/
def size (info : CDBColumnInfo) : ℕ :=
  stringSize info.DBPath + stringSize info.TablePath + stringSize info.DisplayName +
    stringSize info.OriginalName + stringSize info.DeclaredType + stringSize info.Collation + 12

theorem pieces_flatten (info : CDBColumnInfo) : info.pieces.flatten = info.bytes := by
  simp only [pieces, bytes, List.flatten_append, List.flatten_singleton, stringPieces_flatten]

theorem push_inserts (info : CDBColumnInfo) (q : CUQueue) :
    Inserts q q.size info.pieces (info.push q) := by
  refine (pushString_inserts info.DBPath q).append_end fun q ↦ ?_
  refine (pushString_inserts info.TablePath q).append_end fun q ↦ ?_
  refine (pushString_inserts info.DisplayName q).append_end fun q ↦ ?_
  refine (pushString_inserts info.OriginalName q).append_end fun q ↦ ?_
  refine (pushString_inserts info.DeclaredType q).append_end fun q ↦ ?_
  refine (pushString_inserts info.Collation q).append_end fun q ↦ ?_
  refine (pushBytes_inserts q (leBytes 4 info.ColumnSize.toNat)).append_end fun q ↦ ?_
  refine (pushBytes_inserts q (leBytes 4 info.Flags.toNat)).append_end fun q ↦ ?_
  refine (pushBytes_inserts q (leBytes 2 info.DataType.toNat)).append_end fun q ↦ ?_
  refine (pushBytes_inserts q (leBytes 1 info.Precision.toNat)).append_end fun q ↦ ?_
  exact pushBytes_inserts q (leBytes 1 info.Scale.toNat)

theorem short_of_size {info : CDBColumnInfo} (h : info.size < 2 ^ 32) : info.Short := by
  unfold size stringSize at h
  constructor <;> (unfold ShortString; omega)

theorem length_bytes {info : CDBColumnInfo} (h : info.Short) : info.bytes.length = info.size := by
  rw [bytes, size]
  simp only [List.length_append, length_leBytes, length_stringBytes h.DBPath,
    length_stringBytes h.TablePath, length_stringBytes h.DisplayName,
    length_stringBytes h.OriginalName, length_stringBytes h.DeclaredType,
    length_stringBytes h.Collation]
  omega

end CDBColumnInfo

/-! ### Parameter descriptions -/

/-- `tagParameterDirection`, by the bits of its `int`. -/
structure tagParameterDirection where
  toInt : UInt32
deriving DecidableEq, Repr

namespace tagParameterDirection

def pdUnknown : tagParameterDirection := ⟨0⟩
def pdInput : tagParameterDirection := ⟨1⟩
def pdOutput : tagParameterDirection := ⟨2⟩
def pdInputOutput : tagParameterDirection := ⟨3⟩
def pdReturnValue : tagParameterDirection := ⟨4⟩

end tagParameterDirection

/-- The description of a parameter. -/
structure CParameterInfo where
  Direction : tagParameterDirection
  DataType : UInt16
  ColumnSize : UInt32
  Precision : UInt8
  Scale : UInt8
  ParameterName : List UInt16
deriving DecidableEq, Repr

namespace CParameterInfo

/-- `operator<<(CUQueue&, const CParameterInfo&)`. -/
def push (info : CParameterInfo) : Effect CUException CUQueue Unit := do
  pushBytes (leBytes 4 info.Direction.toInt.toNat)
  pushBytes (leBytes 2 info.DataType.toNat)
  pushBytes (leBytes 4 info.ColumnSize.toNat)
  pushBytes (leBytes 1 info.Precision.toNat)
  pushBytes (leBytes 1 info.Scale.toNat)
  pushString info.ParameterName

/-- `operator>>(CUQueue&, CParameterInfo&)`. -/
def pop : Pop CParameterInfo := do
  let direction ← popNumber 4 0
  let DataType ← popNumber 2 0
  let ColumnSize ← popNumber 4 0
  let Precision ← popNumber 1 0
  let Scale ← popNumber 1 0
  let ParameterName ← popString
  pure {
    Direction := ⟨UInt32.ofNat direction⟩
    DataType := UInt16.ofNat DataType
    ColumnSize := UInt32.ofNat ColumnSize
    Precision := UInt8.ofNat Precision
    Scale := UInt8.ofNat Scale
    ParameterName }

/-- The byte strings for a description. -/
def pieces (info : CParameterInfo) : List (List UInt8) :=
  [leBytes 4 info.Direction.toInt.toNat] ++ ([leBytes 2 info.DataType.toNat] ++
    ([leBytes 4 info.ColumnSize.toNat] ++ ([leBytes 1 info.Precision.toNat] ++
      ([leBytes 1 info.Scale.toNat] ++ stringPieces info.ParameterName))))

/-- What a description takes on the wire. -/
def size (info : CParameterInfo) : ℕ := 12 + stringSize info.ParameterName

theorem push_inserts (info : CParameterInfo) (q : CUQueue) :
    Inserts q q.size info.pieces (info.push q) := by
  refine (pushBytes_inserts q (leBytes 4 info.Direction.toInt.toNat)).append_end fun q ↦ ?_
  refine (pushBytes_inserts q (leBytes 2 info.DataType.toNat)).append_end fun q ↦ ?_
  refine (pushBytes_inserts q (leBytes 4 info.ColumnSize.toNat)).append_end fun q ↦ ?_
  refine (pushBytes_inserts q (leBytes 1 info.Precision.toNat)).append_end fun q ↦ ?_
  refine (pushBytes_inserts q (leBytes 1 info.Scale.toNat)).append_end fun q ↦ ?_
  exact pushString_inserts info.ParameterName q

theorem short_of_size {info : CParameterInfo} (h : info.size < 2 ^ 32) :
    ShortString info.ParameterName := by
  unfold size stringSize at h
  unfold ShortString
  omega

theorem length_pieces {info : CParameterInfo} (h : ShortString info.ParameterName) :
    info.pieces.flatten.length = info.size := by
  simp only [pieces, size, List.flatten_append, List.flatten_singleton, stringPieces_flatten,
    List.length_append, length_leBytes, length_stringBytes h]
  omega

theorem pop_decodes {info : CParameterInfo} (h : ShortString info.ParameterName) :
    Decodes (2 ^ 32) pop info.pieces.flatten info := by
  have hinfo := (popString_decodes h).map fun ParameterName ↦ ({
    Direction := ⟨UInt32.ofNat info.Direction.toInt.toNat⟩
    DataType := UInt16.ofNat info.DataType.toNat
    ColumnSize := UInt32.ofNat info.ColumnSize.toNat
    Precision := UInt8.ofNat info.Precision.toNat
    Scale := UInt8.ofNat info.Scale.toNat
    ParameterName } : CParameterInfo)
  simp only [UInt32.ofNat_toNat, UInt16.ofNat_toNat, UInt8.ofNat_toNat] at hinfo
  simp only [pieces, List.flatten_append, List.flatten_singleton, stringPieces_flatten]
  refine (popNumber_decodes info.Direction.toInt.toNat_lt).bind ?_
  refine (popNumber_decodes info.DataType.toNat_lt).bind ?_
  refine (popNumber_decodes info.ColumnSize.toNat_lt).bind ?_
  refine (popNumber_decodes info.Precision.toNat_lt).bind ?_
  refine (popNumber_decodes info.Scale.toNat_lt).bind ?_
  simpa only [UInt32.ofNat_toNat, UInt16.ofNat_toNat, UInt8.ofNat_toNat] using hinfo

end CParameterInfo

/-! ### Writer and reader -/

section Codecs

variable {α : Type} {q : CUQueue}

/-- What the writer appends is read back from the front, and what follows it is left. -/
def RoundTrips (push : Effect CUException CUQueue Unit) (pop : Pop α) (q : CUQueue) (a : α) : Prop :=
  ∃ q' b, push q = .ok () q' ∧ q'.content = q.content ++ b ∧ Decodes (2 ^ 32) pop b a

/-- The writer appends the pieces, and the reader gives `a` back for them exactly if `P` holds. -/
structure Codec (push : Effect CUException CUQueue Unit) (pop : Pop α) (ps : List (List UInt8))
    (a : α) (P : Prop) : Prop where
  inserts (q : CUQueue) : Inserts q q.size ps (push q)
  decodes : DecodesWhen (2 ^ 32) pop ps.flatten a P

/-- **One record**: it comes back exactly if the capacities suffice and `P` holds. -/
theorem Codec.roundTrips_iff {push : Effect CUException CUQueue Unit} {pop : Pop α}
    {ps : List (List UInt8)} {a : α} {P : Prop} (h : Codec push pop ps a P)
    (hlen : ps.flatten.length < 2 ^ 32) :
    RoundTrips push pop q a ↔ (q.growth ps).isSome ∧ P := by
  have hcontent : insertAt q.size ps.flatten q.content = q.content ++ ps.flatten :=
    insertAt_length _ _
  have hok {b : List UInt8} := (h.inserts q).ok_iff (d := q.content ++ b)
  rw [hcontent] at hok
  rw [← h.decodes.decodes_iff hlen]
  constructor
  · rintro ⟨q', b, hpush, hq', hpop⟩
    obtain ⟨hsome, heq⟩ := hok.1 ⟨q', hpush, hq'⟩
    rw [← List.append_cancel_left heq] at hpop
    exact ⟨hsome, hpop⟩
  · rintro ⟨hsome, hpop⟩
    obtain ⟨q', hpush, hq'⟩ := hok.2 ⟨hsome, rfl⟩
    exact ⟨q', _, hpush, hq', hpop⟩

/-- **An array of records.** -/
theorem Codec.array {push : α → Effect CUException CUQueue Unit} {pop : Pop α}
    {pieces : α → List (List UInt8)} {P : α → Prop} {arr : List α} (hlen : arr.length < 2 ^ 32)
    (h : ∀ a ∈ arr, Codec (push a) pop (pieces a) a (P a)) :
    Codec (pushArray push arr) (popArray pop) (arrayPieces pieces arr) arr (∀ a ∈ arr, P a) where
  inserts := pushArray_inserts hlen fun a ha ↦ (h a ha).inserts
  decodes := by
    rw [arrayPieces_flatten]
    exact popArray_decodesWhen hlen fun a ha ↦ (h a ha).decodes

/-- What an array takes on the wire. -/
def totalSize (size : α → ℕ) (arr : List α) : ℕ := 4 + (arr.map size).sum

theorem size_le_totalSize (size : α → ℕ) {arr : List α} {a : α} (ha : a ∈ arr) :
    size a ≤ totalSize size arr :=
  (List.single_le_sum (fun _ _ ↦ Nat.zero_le _) _ (List.mem_map_of_mem ha)).trans
    (Nat.le_add_left _ _)

theorem length_le_totalSize {size : α → ℕ} {arr : List α} (h : ∀ a ∈ arr, 0 < size a) :
    arr.length ≤ totalSize size arr := by
  have hle : (arr.map size).length ≤ (arr.map size).sum := by
    refine List.length_le_sum_of_one_le _ fun n hn ↦ ?_
    obtain ⟨a, ha, rfl⟩ := List.mem_map.1 hn
    exact h a ha
  rw [List.length_map] at hle
  exact hle.trans (Nat.le_add_left _ _)

theorem length_arrayPieces {pieces : α → List (List UInt8)} {size : α → ℕ} {arr : List α}
    (h : ∀ a ∈ arr, (pieces a).flatten.length = size a) :
    (arrayPieces pieces arr).flatten.length = totalSize size arr := by
  rw [arrayPieces_flatten, List.length_append, length_leBytes, List.length_flatMap, totalSize,
    List.map_congr_left h]

/-- **Arrays come back** exactly if the capacities suffice and each record does. -/
theorem Codec.array_roundTrips_iff {push : α → Effect CUException CUQueue Unit} {pop : Pop α}
    {pieces : α → List (List UInt8)} (size : α → ℕ) {P : α → Prop} {arr : List α}
    (hpos : ∀ a ∈ arr, 0 < size a)
    (h : ∀ a ∈ arr, size a < 2 ^ 31 →
      (pieces a).flatten.length = size a ∧ Codec (push a) pop (pieces a) a (P a))
    (hlen : totalSize size arr < 2 ^ 31) :
    RoundTrips (pushArray push arr) (popArray pop) q arr ↔
      (q.growth (arrayPieces pieces arr)).isSome ∧ ∀ a ∈ arr, P a := by
  have h' (a : α) (ha : a ∈ arr) := h a ha ((size_le_totalSize size ha).trans_lt hlen)
  have hcount := length_le_totalSize hpos
  refine (Codec.array (by omega) fun a ha ↦ (h' a ha).2).roundTrips_iff ?_
  rw [length_arrayPieces fun a ha ↦ (h' a ha).1]
  omega

end Codecs

theorem CDBVariant.codec (cv : Converters) (f : Flags) (su : CUQueue) {vt : CDBVariant}
    (hv : vt.WellFormed) (hlen : vt.bytes.length < 2 ^ 31) :
    Codec (push su vt) (pop cv f) vt.pieces vt (vt.Readable f) := by
  have hencode := length_encode_le hv.value
  exact ⟨push_inserts su hv.value (by omega), pop_decodesWhen cv f hv (by omega)⟩

theorem CDBColumnInfo.codec {info : CDBColumnInfo} (h : info.Short) :
    Codec info.push pop info.pieces info True := by
  refine ⟨info.push_inserts, ?_⟩
  rw [pieces_flatten]
  exact (pop_decodes h).always

theorem CParameterInfo.codec {info : CParameterInfo} (h : ShortString info.ParameterName) :
    Codec info.push pop info.pieces info True :=
  ⟨info.push_inserts, (pop_decodes h).always⟩

/-! ### The codec -/

/-- **Records come back** as they have been written, whatever follows them, with GUIDs marked as
such and nothing else: exactly if the capacities suffice, which they do where the block size divides
2^31, and the values are readable. -/
theorem records_roundTrip_iff (cv : Converters) (f : Flags) (su q : CUQueue) :
    (∀ vt : CDBVariant, vt.WellFormed → q.size + vt.bytes.length < 2 ^ 31 →
      (RoundTrips (vt.push su) (CDBVariant.pop cv f) q vt ↔
        (q.growth vt.pieces).isSome ∧ vt.Readable f)) ∧
    (∀ arr : List CDBVariant, (∀ vt ∈ arr, vt.WellFormed) →
      q.size + totalSize (fun vt ↦ vt.bytes.length) arr < 2 ^ 31 →
      (RoundTrips (pushArray (CDBVariant.push su) arr) (popArray (CDBVariant.pop cv f)) q arr ↔
        (q.growth (arrayPieces CDBVariant.pieces arr)).isSome ∧ ∀ vt ∈ arr, vt.Readable f)) ∧
    (∀ arr : List CDBColumnInfo, q.size + totalSize CDBColumnInfo.size arr < 2 ^ 31 →
      (RoundTrips (pushArray CDBColumnInfo.push arr) popColumnInfoArray q arr ↔
        (q.growth (arrayPieces CDBColumnInfo.pieces arr)).isSome)) ∧
    (∀ arr : List CParameterInfo, q.size + totalSize CParameterInfo.size arr < 2 ^ 31 →
      (RoundTrips (pushArray CParameterInfo.push arr) (popArray CParameterInfo.pop) q arr ↔
        (q.growth (arrayPieces CParameterInfo.pieces arr)).isSome)) ∧
    (q.m_nBlockSize ∣ 2 ^ 31 → ∀ ps : List (List UInt8), q.size + ps.flatten.length < 2 ^ 31 →
      (q.growth ps).isSome) := by
  refine ⟨?_, ?_, ?_, ?_, ?_⟩
  · intro vt hv hlen
    have hlen' : vt.bytes.length < 2 ^ 31 := by omega
    exact (CDBVariant.codec cv f su hv hlen').roundTrips_iff (hlen'.trans (by decide))
  · intro arr harr hlen
    refine Codec.array_roundTrips_iff _ (fun vt _ ↦ List.length_pos_iff.2 vt.bytes_ne_nil)
      (fun vt hvt hsize ↦ ⟨rfl, CDBVariant.codec cv f su (harr vt hvt) hsize⟩) (by omega)
  · intro arr hlen
    have hiff : RoundTrips (pushArray CDBColumnInfo.push arr) (popArray CDBColumnInfo.pop) q arr ↔
        (q.growth (arrayPieces CDBColumnInfo.pieces arr)).isSome ∧ ∀ info ∈ arr, True := by
      refine Codec.array_roundTrips_iff CDBColumnInfo.size (fun info _ ↦ Nat.succ_pos _)
        (fun info _ hsize ↦ ?_) (by omega)
      have hshort : info.Short := CDBColumnInfo.short_of_size (by omega)
      exact ⟨info.pieces_flatten ▸ CDBColumnInfo.length_bytes hshort, CDBColumnInfo.codec hshort⟩
    rw [and_iff_left fun _ _ ↦ trivial] at hiff
    exact hiff
  · intro arr hlen
    have hiff : RoundTrips (pushArray CParameterInfo.push arr) (popArray CParameterInfo.pop) q arr ↔
        (q.growth (arrayPieces CParameterInfo.pieces arr)).isSome ∧ ∀ info ∈ arr, True := by
      refine Codec.array_roundTrips_iff CParameterInfo.size (fun info _ ↦ ?_)
        (fun info _ hsize ↦ ?_) (by omega)
      · unfold CParameterInfo.size
        omega
      · have hshort : ShortString info.ParameterName := CParameterInfo.short_of_size (by omega)
        exact ⟨CParameterInfo.length_pieces hshort, CParameterInfo.codec hshort⟩
    rwa [and_iff_left fun _ _ ↦ trivial] at hiff
  · intro hblock ps hlen
    have hfits : q.m_nHeadPos + q.size ≤ q.m_nMaxBuffer := q.fits
    rw [List.length_flatten] at hlen
    have hsize : q.size ≤ q.m_nMaxBuffer := by omega
    obtain ⟨m, hm, -⟩ := growth_of_block hblock (ps.map List.length) hsize hlen
    rw [CUQueue.growth, hm]
    rfl

/-- Sixteen bytes marked as a GUID. -/
def someGuid : CDBVariant := ⟨.scalarArray .UI1 sizeofGUID (List.replicate sizeofGUID 5), .vteGuid⟩

theorem someGuid_wellFormed : someGuid.WellFormed := ⟨.scalarArray (by decide) rfl, fun _ ↦ ⟨_, rfl⟩⟩

/-- A parameter of sixteen bytes for output. -/
def someParameter : CParameterInfo where
  Direction := .pdOutput
  DataType := 0x2011
  ColumnSize := 16
  Precision := 0
  Scale := 0
  ParameterName := [105, 100]

/-- A GUID and an array of two parameters, written behind a byte. -/
theorem guid_and_parameters_roundTrip :
    RoundTrips (someGuid.push (bufferOf [] (by decide))) (CDBVariant.pop asciiConverters noFlags)
      (bufferOf [7] (by decide)) someGuid ∧
    RoundTrips (pushArray CParameterInfo.push [someParameter, someParameter])
      (popArray CParameterInfo.pop) (bufferOf [7] (by decide)) [someParameter, someParameter] := by
  obtain ⟨hvalue, -, -, hparameters, hroom⟩ := records_roundTrip_iff asciiConverters noFlags
    (bufferOf [] (by decide)) (bufferOf [7] (by decide))
  have hblock : 4096 ∣ 2 ^ 31 := by decide
  refine ⟨(hvalue _ someGuid_wellFormed (by decide)).2 ⟨hroom hblock _ (by decide), ?_⟩, ?_⟩
  · exact @CDBVariant.readable_of_guid noFlags someGuid (List.replicate sizeofGUID 5) rfl
      someGuid_wellFormed.value
  · exact (hparameters _ (by decide)).2 (hroom hblock _ (by decide))

/-- As many elements as the 32 bits of `SafeArrayCreate` are too few for. -/
def manyEmpty : CDBVariant := ⟨.variantArray (List.replicate 178956970 .empty), .vteNormal⟩

theorem length_encodeElements_empty (n : ℕ) :
    (VARIANT.encodeElements (List.replicate n .empty)).length = 2 * n := by
  induction n with
  | zero => rfl
  | succ n ih =>
    have htag : VARIANT.empty.encode.length = 2 := rfl
    rw [List.replicate_succ, VARIANT.encodeElements_cons, List.length_append, ih, htag]
    omega

/-- An array of less than 2^29 bytes that does not come back. -/
theorem manyEmpty_not_roundTrips :
    ¬ ∀ (cv : Converters) (su q : CUQueue) (vt : CDBVariant), vt.WellFormed →
      q.size + vt.bytes.length < 2 ^ 31 →
      RoundTrips (vt.push su) (CDBVariant.pop cv noFlags) q vt := by
  intro h
  have hwf : manyEmpty.WellFormed := by
    refine ⟨.variantArray ?_ fun v hv ↦ ?_, nofun⟩
    · rw [List.length_replicate]
      decide
    · rw [List.eq_of_mem_replicate hv]
      exact .empty
  have hlen : manyEmpty.bytes.length = 357913946 := by
    have hbytes : manyEmpty.bytes = manyEmpty.value.encode := CDBVariant.bytes_of_normal rfl
    rw [hbytes, manyEmpty, encode_variantArray, List.length_append, List.length_append,
      length_encodeElements_empty, length_leBytes, length_leBytes]
  have hcodec := CDBVariant.codec asciiConverters noFlags (bufferOf [] (by decide)) hwf
    (by rw [hlen]; decide)
  have hsize : (bufferOf [] (by decide)).size = 0 := rfl
  have hback := h asciiConverters (bufferOf [] (by decide)) (bufferOf [] (by decide)) manyEmpty hwf
    (by rw [hlen, hsize]; decide)
  have hfits : ArrayFits 24 (List.replicate 178956970 VARIANT.empty).length :=
    ((hcodec.roundTrips_iff (show manyEmpty.bytes.length < 2 ^ 32 by rw [hlen]; decide)).1 hback).2.1.1
  rw [List.length_replicate] at hfits
  revert hfits
  decide

end SocketPro.Database
