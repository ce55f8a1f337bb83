import SocketPro.Buffer.VariantReader
import SocketPro.Foundation.Decode

/-!
# Column descriptions on the wire

`CDBColumnInfo` of `udatabase.h` and arrays of it, written and read member by member. The members
are numbers of fixed width and strings of UTF-16 units with their length in bytes ahead.

**What is written is read back** (`popColumnInfoArray_decodes`), for strings whose length in bytes
has 32 bits.
-/

namespace SocketPro.Database

open Bytes Buffer Machine

/-! ### Numbers and strings -/

theorem popNumber_decodes {w n : ℕ} (hn : n < 256 ^ w) :
    Decodes (2 ^ 32) (popNumber w 0) (leBytes w n) n := by
  intro rest hrest
  have hok : popNumber w ([] : List UInt8).length ([] ++ (leBytes w n ++ rest)) = _ :=
    popNumber_ok hn (by rwa [List.length_nil, Nat.zero_add])
  exact hok

/-- `operator<<(const std::u16string&)`. -/
def stringBytes (str : List UInt16) : List UInt8 :=
  let size := 2 * str.length % 2 ^ 32
  leBytes 4 size ++ (utf16Bytes str).take size

/-- `operator>>(std::u16string&)`. -/
def popString : Pop (List UInt16) := do
  let size ← popNumber 4 0
  if size = UQUEUE_NULL_LENGTH ∨ size = 0 then pure []
  else do
    let rest ← getSize
    if rest < size then Effect.raise .badUtf16
    else do
      let s ← peek (2 * (size / 2)) 0
      let _ ← discard size 0
      pure (utf16Units s)

/-- The length of a string in bytes has 32 bits. -/
def ShortString (str : List UInt16) : Prop := 2 * str.length < 2 ^ 32

theorem popString_decodes {str : List UInt16} (hstr : ShortString str) :
    Decodes (2 ^ 32) popString (stringBytes str) str := by
  have hmod : 2 * str.length % 2 ^ 32 = 2 * str.length := Nat.mod_eq_of_lt hstr
  have htake : (utf16Bytes str).take (2 * str.length) = utf16Bytes str :=
    List.take_of_length_le (length_utf16Bytes str).le
  have hbytes : stringBytes str = leBytes 4 (2 * str.length) ++ utf16Bytes str := by
    simp only [stringBytes, hmod, htake]
  rw [hbytes, popString]
  refine (popNumber_decodes hstr).bind ?_
  -- An even length is not the one that stands for a null string.
  have hnull : 2 * str.length ≠ UQUEUE_NULL_LENGTH := by
    have hodd : UQUEUE_NULL_LENGTH % 2 = 1 := rfl
    omega
  intro rest hrest
  by_cases h0 : 2 * str.length = 0
  · have hnil : str = [] := List.length_eq_zero_iff.1 (by omega)
    rw [if_pos (.inr h0), hnil]
    rfl
  · have hlen : 2 * (2 * str.length / 2) = (utf16Bytes str).length := by
      rw [length_utf16Bytes]
      omega
    have hle : ¬ (utf16Bytes str ++ rest).length < 2 * str.length := by
      rw [List.length_append, length_utf16Bytes]
      omega
    have hsize : getSize (utf16Bytes str ++ rest) = .ok _ _ := rfl
    have hpeek : peek (utf16Bytes str).length ([] : List UInt8).length
        ([] ++ (utf16Bytes str ++ rest)) = _ := peek_ok
    have hdiscard : discard (utf16Bytes str).length ([] : List UInt8).length
        ([] ++ (utf16Bytes str ++ rest)) = _ := discard_ok
    simp only [List.nil_append, List.length_nil] at hpeek hdiscard
    rw [if_neg (not_or.2 ⟨hnull, h0⟩), Effect.bind_ok hsize, if_neg hle, hlen,
      Effect.bind_ok hpeek, ← length_utf16Bytes, Effect.bind_ok hdiscard, utf16Units_utf16Bytes]
    rfl

/-! ### Columns -/

/-- The description of a column. -/
structure CDBColumnInfo where
  DBPath : List UInt16
  TablePath : List UInt16
  DisplayName : List UInt16
  OriginalName : List UInt16
  DeclaredType : List UInt16
  Collation : List UInt16
  ColumnSize : UInt32
  Flags : UInt32
  DataType : UInt16
  Precision : UInt8
  Scale : UInt8
deriving DecidableEq, Repr

namespace CDBColumnInfo

/-- `operator<<(CUQueue&, const CDBColumnInfo&)`. -/
def bytes (info : CDBColumnInfo) : List UInt8 :=
  stringBytes info.DBPath ++ (stringBytes info.TablePath ++ (stringBytes info.DisplayName ++
    (stringBytes info.OriginalName ++ (stringBytes info.DeclaredType ++
      (stringBytes info.Collation ++ (leBytes 4 info.ColumnSize.toNat ++
        (leBytes 4 info.Flags.toNat ++ (leBytes 2 info.DataType.toNat ++
          (leBytes 1 info.Precision.toNat ++ leBytes 1 info.Scale.toNat)))))))))

/-- `operator>>(CUQueue&, CDBColumnInfo&)`. -/
def pop : Pop CDBColumnInfo := do
  let DBPath ← popString
  let TablePath ← popString
  let DisplayName ← popString
  let OriginalName ← popString
  let DeclaredType ← popString
  let Collation ← popString
  let ColumnSize ← popNumber 4 0
  let Flags ← popNumber 4 0
  let DataType ← popNumber 2 0
  let Precision ← popNumber 1 0
  let Scale ← popNumber 1 0
  pure {
    DBPath, TablePath, DisplayName, OriginalName, DeclaredType, Collation
    ColumnSize := UInt32.ofNat ColumnSize
    Flags := UInt32.ofNat Flags
    DataType := UInt16.ofNat DataType
    Precision := UInt8.ofNat Precision
    Scale := UInt8.ofNat Scale }

/-- Every string of the description is short. -/
structure Short (info : CDBColumnInfo) : Prop where
  DBPath : ShortString info.DBPath
  TablePath : ShortString info.TablePath
  DisplayName : ShortString info.DisplayName
  OriginalName : ShortString info.OriginalName
  DeclaredType : ShortString info.DeclaredType
  Collation : ShortString info.Collation

theorem pop_decodes {info : CDBColumnInfo} (h : info.Short) :
    Decodes (2 ^ 32) pop info.bytes info := by
  have hscale : Decodes (2 ^ 32) (popNumber 1 0) (leBytes 1 info.Scale.toNat) _ :=
    popNumber_decodes info.Scale.toNat_lt
  have hinfo := hscale.map fun Scale ↦ ({
    DBPath := info.DBPath, TablePath := info.TablePath, DisplayName := info.DisplayName
    OriginalName := info.OriginalName, DeclaredType := info.DeclaredType
    Collation := info.Collation
    ColumnSize := UInt32.ofNat info.ColumnSize.toNat
    Flags := UInt32.ofNat info.Flags.toNat
    DataType := UInt16.ofNat info.DataType.toNat
    Precision := UInt8.ofNat info.Precision.toNat
    Scale := UInt8.ofNat Scale } : CDBColumnInfo)
  simp only [UInt32.ofNat_toNat, UInt16.ofNat_toNat, UInt8.ofNat_toNat] at hinfo
  refine (popString_decodes h.DBPath).bind ?_
  refine (popString_decodes h.TablePath).bind ?_
  refine (popString_decodes h.DisplayName).bind ?_
  refine (popString_decodes h.OriginalName).bind ?_
  refine (popString_decodes h.DeclaredType).bind ?_
  refine (popString_decodes h.Collation).bind ?_
  refine (popNumber_decodes info.ColumnSize.toNat_lt).bind ?_
  refine (popNumber_decodes info.Flags.toNat_lt).bind ?_
  refine (popNumber_decodes info.DataType.toNat_lt).bind ?_
  refine (popNumber_decodes info.Precision.toNat_lt).bind ?_
  simpa only [UInt32.ofNat_toNat, UInt16.ofNat_toNat, UInt8.ofNat_toNat] using hinfo

end CDBColumnInfo

/-- `operator<<(CUQueue&, const CDBColumnInfoArray&)`. -/
def columnInfoBytes (arr : List CDBColumnInfo) : List UInt8 :=
  leBytes 4 (arr.length % 2 ^ 32) ++ (arr.take (arr.length % 2 ^ 32)).flatMap CDBColumnInfo.bytes

/-- `operator>>(CUQueue&, CDBColumnInfoArray&)`. -/
def popColumnInfoArray : Pop (List CDBColumnInfo) := do
  let size ← popNumber 4 0
  repeatRead CDBColumnInfo.pop size

/-- **Column descriptions are read back.** -/
theorem popColumnInfoArray_decodes {arr : List CDBColumnInfo} (hlen : arr.length < 2 ^ 32)
    (harr : ∀ info ∈ arr, info.Short) :
    Decodes (2 ^ 32) popColumnInfoArray (columnInfoBytes arr) arr := by
  rw [columnInfoBytes, Nat.mod_eq_of_lt hlen, List.take_length]
  exact (popNumber_decodes hlen).bind
    (Decodes.repeatRead fun info hinfo ↦ CDBColumnInfo.pop_decodes (harr info hinfo))

end SocketPro.Database
