import SocketPro.Java.Values

/-!
# The objects of a Java table

What the cells of a `CTable` are, `ChangeType`, which makes the objects of a column of them, and
the comparison `eq`. A function that throws gives `none`.

Integers are converted as the machine does. What the class library does with floating-point numbers
and with texts is a `Library`; floating-point numbers are their bits.

**The type of a column.** All tags of one `case` of `ChangeType` are one `ColumnType`, and
`changeType_hasType` says that what `ChangeType` makes is of this type, or null. The exception is a
`Boolean` in a column of them: it becomes a `Byte`.
-/

namespace SocketPro.Java

open Unicode

/-- UTF-16 code units. -/
abbrev Text := List UInt16

/-- `java.math.BigDecimal` -/
structure BigDecimal where
  unscaledValue : ℤ
  scale : ℤ
deriving DecidableEq, Repr

/-- `java.sql.Timestamp` -/
structure Timestamp where
  getTime : Int64
  getNanos : ℕ
deriving DecidableEq, Repr

inductive Obj
  | null
  | byte (n : Int8)
  | char (c : UInt16)
  | short (n : Int16)
  | int (n : Int32)
  | long (n : Int64)
  | float (bits : UInt32)
  | double (bits : UInt64)
  | boolean (b : Bool)
  | string (s : Text)
  | decimal (d : BigDecimal)
  | uuid (most least : UInt64)
  | timestamp (t : Timestamp)
  | date (getTime : Int64)
  | bytes (a : List UInt8)
  /-- An object of another class. -/
  | other (number : ℕ)
deriving DecidableEq, Repr

/-- What the class library and the machine do with floating-point numbers and texts. A parser gives
`none` where it throws. -/
structure Library where
  /-- `(int) d` -/
  intOfDouble : UInt64 → Int32
  /-- `(long) d` -/
  longOfDouble : UInt64 → Int64
  doubleOfFloat : UInt32 → UInt64
  floatOfDouble : UInt64 → UInt32
  doubleOfInteger : ℤ → UInt64
  floatOfInteger : ℤ → UInt32
  /-- `new BigDecimal(d)` -/
  decimalOfDouble : UInt64 → Option BigDecimal
  doubleValue : BigDecimal → UInt64
  floatValue : BigDecimal → UInt32
  /-- The integer that `Long.parseLong` and its like read, before it is found to be too large. -/
  parseInteger : Text → Option ℤ
  parseFloat : Text → Option UInt32
  parseDouble : Text → Option UInt64
  /-- `new BigDecimal(s)` -/
  parseDecimal : Text → Option BigDecimal
  /-- `UUID.fromString` -/
  parseUUID : Text → Option (UInt64 × UInt64)
  /-- `Timestamp.valueOf` -/
  parseTimestamp : Text → Option Timestamp
  /-- `toString()` of an object that is not a `String`. -/
  toString : Obj → Text
  /-- `Character.toLowerCase(Character.toUpperCase(c))` -/
  foldCase : UInt16 → UInt16

/-- A library for objects that are not floating-point numbers, nor texts that are parsed. -/
def plainLibrary : Library where
  intOfDouble _ := 0
  longOfDouble _ := 0
  doubleOfFloat _ := 0
  floatOfDouble _ := 0
  doubleOfInteger _ := 0
  floatOfInteger _ := 0
  decimalOfDouble _ := none
  doubleValue _ := 0
  floatValue _ := 0
  parseInteger _ := none
  parseFloat _ := none
  parseDouble _ := none
  parseDecimal _ := none
  parseUUID _ := none
  parseTimestamp _ := none
  toString _ := []
  foldCase c := if 65 ≤ c ∧ c ≤ 90 then c + 32 else c

/-! ### Types of columns -/

abbrev sdVT_I2 : ℕ := 2

abbrev sdVT_I4 : ℕ := 3

abbrev sdVT_R4 : ℕ := 4

abbrev sdVT_R8 : ℕ := 5

abbrev sdVT_DATE : ℕ := 7

abbrev sdVT_BOOL : ℕ := 11

abbrev sdVT_DECIMAL : ℕ := 14

abbrev sdVT_I1 : ℕ := 16

abbrev sdVT_UI2 : ℕ := 18

abbrev sdVT_UI4 : ℕ := 19

abbrev sdVT_I8 : ℕ := 20

abbrev sdVT_UI8 : ℕ := 21

abbrev sdVT_INT : ℕ := 22

abbrev sdVT_UINT : ℕ := 23

abbrev sdVT_CLSID : ℕ := 72

/-- The Java types of the columns. -/
inductive ColumnType
  | byte
  | short
  | int
  | long
  | float
  | double
  | decimal
  | string
  | bytes
  | uuid
  | timestamp
  | boolean
deriving DecidableEq, Repr

/-- The `case` of a tag in `ChangeType`. -/
def columnType (vtTarget : ℕ) : Option ColumnType :=
  if vtTarget = sdVT_I1 ∨ vtTarget = sdVT_UI1 then some .byte
  else if vtTarget = sdVT_I2 ∨ vtTarget = sdVT_UI2 then some .short
  else if vtTarget = sdVT_I4 ∨ vtTarget = sdVT_UI4 ∨ vtTarget = sdVT_INT ∨ vtTarget = sdVT_UINT then
    some .int
  else if vtTarget = sdVT_I8 ∨ vtTarget = sdVT_UI8 then some .long
  else if vtTarget = sdVT_R4 then some .float
  else if vtTarget = sdVT_R8 then some .double
  else if vtTarget = sdVT_DECIMAL then some .decimal
  else if vtTarget = sdVT_ARRAY + sdVT_I1 ∨ vtTarget = sdVT_BSTR then some .string
  else if vtTarget = sdVT_ARRAY + sdVT_UI1 then some .bytes
  else if vtTarget = sdVT_CLSID then some .uuid
  else if vtTarget = sdVT_DATE then some .timestamp
  else if vtTarget = sdVT_BOOL then some .boolean
  else none

/-- The type of the columns that an object belongs into. -/
def Obj.type : Obj → Option ColumnType
  | .byte _ => some .byte
  | .short _ => some .short
  | .int _ => some .int
  | .long _ => some .long
  | .float _ => some .float
  | .double _ => some .double
  | .boolean _ => some .boolean
  | .string _ => some .string
  | .decimal _ => some .decimal
  | .uuid _ _ => some .uuid
  | .timestamp _ => some .timestamp
  | .bytes _ => some .bytes
  | .null | .char _ | .date _ | .other _ => none

/-! ### Conversions -/

/-- The integer part of a decimal. -/
def BigDecimal.toBigInteger (d : BigDecimal) : ℤ :=
  if 0 ≤ d.scale then d.unscaledValue.tdiv (10 ^ d.scale.toNat)
  else d.unscaledValue * 10 ^ (-d.scale).toNat

/-- An integer of a text, if it is within the bounds of a type of `bits` bits. -/
def bounded (bits : ℕ) (n : Option ℤ) : Option ℤ :=
  n.filter fun n ↦ -2 ^ (bits - 1) ≤ n ∧ n < 2 ^ (bits - 1)

/-- The branches of a type of numbers: every class of numbers has one, and texts are parsed. -/
def changeNumber (ofInteger : ℤ → Obj) (ofDouble : UInt64 → Option Obj)
    (ofFloat : UInt32 → Option Obj) (ofDecimal : BigDecimal → Obj) (parse : Text → Option Obj) :
    Obj → Option Obj
  | .int n => some (ofInteger n.toInt)
  | .long n => some (ofInteger n.toInt)
  | .short n => some (ofInteger n.toInt)
  | .double d => ofDouble d
  | .byte n => some (ofInteger n.toInt)
  | .float f => ofFloat f
  | .char c => some (ofInteger c.toNat)
  | .boolean b => some (ofInteger (if b = true then 1 else 0))
  | .decimal d => some (ofDecimal d)
  | .string s => parse s
  | _ => some .null

/-- The number is 0 or the negative zero, of `width` bits. -/
def isZero (width bits : ℕ) : Bool := bits % 2 ^ (width - 1) = 0

section ChangeType

variable (l : Library)

/-- The branches of a type of integers, where `narrow` takes the low bits of one. -/
def changeInteger (bits : ℕ) (narrow : ℤ → Obj) (truncate : UInt64 → ℤ) : Obj → Option Obj :=
  changeNumber narrow (fun d ↦ some (narrow (truncate d)))
    (fun f ↦ some (narrow (truncate (l.doubleOfFloat f)))) (fun d ↦ narrow d.toBigInteger)
    (fun s ↦ (bounded bits (l.parseInteger s)).map narrow)

/-- The `switch` of `ChangeType`. -/
def changeTo (v : Obj) : ColumnType → Option Obj
  | .byte => changeInteger l 8 (fun n ↦ .byte (.ofInt n)) (fun d ↦ (l.intOfDouble d).toInt) v
  | .short => changeInteger l 16 (fun n ↦ .short (.ofInt n)) (fun d ↦ (l.intOfDouble d).toInt) v
  | .int => changeInteger l 32 (fun n ↦ .int (.ofInt n)) (fun d ↦ (l.intOfDouble d).toInt) v
  | .long => changeInteger l 64 (fun n ↦ .long (.ofInt n)) (fun d ↦ (l.longOfDouble d).toInt) v
  | .float =>
    changeNumber (fun n ↦ .float (l.floatOfInteger n)) (fun d ↦ some (.float (l.floatOfDouble d)))
      (fun f ↦ some (.float f)) (fun d ↦ .float (l.floatValue d))
      (fun s ↦ (l.parseFloat s).map .float) v
  | .double =>
    changeNumber (fun n ↦ .double (l.doubleOfInteger n)) (fun d ↦ some (.double d))
      (fun f ↦ some (.double (l.doubleOfFloat f))) (fun d ↦ .double (l.doubleValue d))
      (fun s ↦ (l.parseDouble s).map .double) v
  | .decimal =>
    changeNumber (fun n ↦ .decimal ⟨n, 0⟩) (fun d ↦ (l.decimalOfDouble d).map .decimal)
      (fun f ↦ (l.decimalOfDouble (l.doubleOfFloat f)).map .decimal) .decimal
      (fun s ↦ (l.parseDecimal s).map .decimal) v
  | .string =>
    match v with
    | .string s => some (.string s)
    | v => some (.string (l.toString v))
  | .bytes =>
    match v with
    | .bytes a => some (.bytes a)
    | _ => some .null
  | .uuid =>
    match v with
    | .uuid most least => some (.uuid most least)
    | .string s => (l.parseUUID s).map fun u ↦ .uuid u.1 u.2
    | _ => some .null
  | .timestamp =>
    match v with
    | .timestamp t => some (.timestamp t)
    | .string s => (l.parseTimestamp s).map .timestamp
    | _ => some .null
  | .boolean =>
    match v with
    -- A `Boolean` does not stay one.
    | .boolean b => some (.byte (if b = true then 1 else 0))
    | v =>
      changeNumber (fun n ↦ .boolean (n ≠ 0)) (fun d ↦ some (.boolean (!isZero 64 d.toNat)))
        (fun f ↦ some (.boolean (!isZero 32 f.toNat)))
        (fun d ↦ .boolean (!isZero 64 (l.doubleValue d).toNat))
        (fun s ↦ some (.boolean (s.map l.foldCase = (encodeUTF16 "true".toList).map l.foldCase))) v

/-- `ChangeType(vt0, vtTarget)` -/
def ChangeType (vt0 : Obj) (vtTarget : ℕ) : Option Obj :=
  if vt0 = .null then some .null
  else match columnType vtTarget with
  | some t => changeTo l vt0 t
  | none => some .null

end ChangeType

/-! ### Comparison -/

abbrev COMPARISON_NOT_SUPPORTED : ℤ := -4

/-- `==` of two floating-point numbers of `width` bits, of which `infinity` is the largest. -/
def floatEq (width infinity a b : ℕ) : Bool :=
  a % 2 ^ (width - 1) ≤ infinity && b % 2 ^ (width - 1) ≤ infinity &&
    (a = b || isZero width a && isZero width b)

/-- `d.compareTo(e) == 0` -/
def BigDecimal.same (d e : BigDecimal) : Bool :=
  d.unscaledValue * 10 ^ (e.scale - d.scale).toNat =
    e.unscaledValue * 10 ^ (d.scale - e.scale).toNat

/-- `equals` or `equalsIgnoreCase` -/
def sameText (l : Library) (caseSensitive : Bool) (s t : Text) : Bool :=
  if caseSensitive = true then s = t else s.map l.foldCase = t.map l.foldCase

/-- `eq(vt0, vt1)` of a table whose data is case-sensitive or not. The second object is cast to the
class of the first one. -/
def eq (l : Library) (caseSensitive : Bool) (vt0 vt1 : Obj) : Option ℤ :=
  let test (b : Bool) : Option ℤ := some (if b = true then 1 else 0)
  match vt0, vt1 with
  | .null, _ => some 0
  | .int m, .int n => test (m = n)
  | .long m, .long n => test (m = n)
  | .short m, .short n => test (m = n)
  | .double d, .double e => test (floatEq 64 0x7ff0000000000000 d.toNat e.toNat)
  | .string s, .string t => test (sameText l caseSensitive s t)
  | .boolean b, .boolean c => test (b = c)
  | .timestamp s, .timestamp t => test (s = t)
  | .timestamp _, .null => some 0
  | .decimal d, .decimal e => test (d.same e)
  | .float f, .float g => test (floatEq 32 0x7f800000 f.toNat g.toNat)
  | .uuid m n, .uuid m' n' => test (m = m' ∧ n = n')
  | .char c, .char d => test (c = d)
  | .byte m, .byte n => test (m = n)
  | .date s, .date t => test (s = t)
  -- A `Timestamp` is a `java.util.Date` as well.
  | .date s, .timestamp t => test (s = t.getTime)
  | .date _, .null => some 0
  | .bytes _, _ | .other _, _ => some COMPARISON_NOT_SUPPORTED
  | _, _ => none

/-! ### The value in the type of its column -/

/-- The value is a `Boolean` in a column of them. -/
def IsBoolean (v : Obj) (vt : ℕ) : Prop := v.type = some .boolean ∧ columnType vt = some .boolean

instance (v : Obj) (vt : ℕ) : Decidable (IsBoolean v vt) := inferInstanceAs (Decidable (_ ∧ _))

/-- The value in the Java type of its column, if it has one there. -/
def inType (l : Library) (v : Obj) (vt : ℕ) : Option Obj :=
  if v = .null ∨ IsBoolean v vt then some v
  else (ChangeType l v vt).filter fun w ↦ decide (w ≠ .null)

/-- Two values of one type are the same. -/
def Obj.same : Obj → Obj → Bool
  | .double d, .double e => floatEq 64 0x7ff0000000000000 d.toNat e.toNat
  | .float f, .float g => floatEq 32 0x7f800000 f.toNat g.toNat
  | .decimal d, .decimal e => d.same e
  | v, w => v = w

/-- The same in a table whose data is case-sensitive or not. -/
def matching (l : Library) (caseSensitive : Bool) : Obj → Obj → Bool
  | .string s, .string t => sameText l caseSensitive s t
  | v, w => v.same w

variable {l : Library} {v w : Obj} {t : ColumnType} {vt : ℕ}

theorem type_of_changeNumber {ofInteger : ℤ → Obj} {ofDouble : UInt64 → Option Obj}
    {ofFloat : UInt32 → Option Obj} {ofDecimal : BigDecimal → Obj} {parse : Text → Option Obj}
    (hinteger : ∀ n, (ofInteger n).type = some t)
    (hdouble : ∀ d, ∀ w ∈ ofDouble d, w.type = some t)
    (hfloat : ∀ f, ∀ w ∈ ofFloat f, w.type = some t) (hdecimal : ∀ d, (ofDecimal d).type = some t)
    (hparse : ∀ s, ∀ w ∈ parse s, w.type = some t)
    (h : changeNumber ofInteger ofDouble ofFloat ofDecimal parse v = some w) :
    w = .null ∨ w.type = some t := by
  cases v with
  | double d => exact .inr (hdouble d w h)
  | float f => exact .inr (hfloat f w h)
  | string s => exact .inr (hparse s w h)
  | decimal d =>
    cases h
    exact .inr (hdecimal d)
  | int n | long n | short n | byte n | char n | boolean n =>
    cases h
    exact .inr (hinteger _)
  | null | uuid _ _ | timestamp _ | date _ | bytes _ | other _ =>
    cases h
    exact .inl rfl

theorem type_of_changeInteger {bits : ℕ} {narrow : ℤ → Obj} {truncate : UInt64 → ℤ}
    (hnarrow : ∀ n, (narrow n).type = some t)
    (h : changeInteger l bits narrow truncate v = some w) :
    w = .null ∨ w.type = some t := by
  refine type_of_changeNumber hnarrow ?_ ?_ (fun d ↦ hnarrow _) ?_ h
  · rintro d _ ⟨⟩
    exact hnarrow _
  · rintro f _ ⟨⟩
    exact hnarrow _
  · intro s w hw
    obtain ⟨n, -, rfl⟩ := Option.map_eq_some_iff.1 hw
    exact hnarrow n

/-- An optional part of an object. -/
theorem type_of_map {α : Type} {make : α → Obj} (hmake : ∀ a, (make a).type = some t)
    {a : Option α} (h : w ∈ a.map make) : w.type = some t := by
  obtain ⟨a, -, rfl⟩ := Option.map_eq_some_iff.1 h
  exact hmake a

/-- **What `ChangeType` makes** is null, or of the type of the column, or it was a `Boolean`. -/
theorem type_of_changeTo (h : changeTo l v t = some w) :
    w = .null ∨ w.type = some t ∨ v.type = some .boolean ∧ t = .boolean := by
  cases t with
  | byte => exact (type_of_changeInteger (fun n ↦ rfl) h).imp_right .inl
  | short => exact (type_of_changeInteger (fun n ↦ rfl) h).imp_right .inl
  | int => exact (type_of_changeInteger (fun n ↦ rfl) h).imp_right .inl
  | long => exact (type_of_changeInteger (fun n ↦ rfl) h).imp_right .inl
  | float =>
    rw [changeTo] at h
    refine (type_of_changeNumber (fun n ↦ rfl) ?_ ?_ (fun d ↦ rfl) ?_ h).imp_right .inl
    · rintro d _ ⟨⟩
      rfl
    · rintro f _ ⟨⟩
      rfl
    · exact fun s w hw ↦ type_of_map (fun f ↦ rfl) hw
  | double =>
    rw [changeTo] at h
    refine (type_of_changeNumber (fun n ↦ rfl) ?_ ?_ (fun d ↦ rfl) ?_ h).imp_right .inl
    · rintro d _ ⟨⟩
      rfl
    · rintro f _ ⟨⟩
      rfl
    · exact fun s w hw ↦ type_of_map (fun f ↦ rfl) hw
  | decimal =>
    rw [changeTo] at h
    refine (type_of_changeNumber (fun n ↦ rfl) ?_ ?_ (fun d ↦ rfl) ?_ h).imp_right .inl
    all_goals exact fun s w hw ↦ type_of_map (fun d ↦ rfl) hw
  | string =>
    refine .inr (.inl ?_)
    cases v <;> cases h <;> rfl
  | bytes => cases v <;> cases h <;> first | exact .inl rfl | exact .inr (.inl rfl)
  | uuid =>
    cases v with
    | string s => exact .inr (.inl (type_of_map (fun u ↦ rfl) h))
    | _ => cases h; first | exact .inl rfl | exact .inr (.inl rfl)
  | timestamp =>
    cases v with
    | string s => exact .inr (.inl (type_of_map (fun u ↦ rfl) h))
    | _ => cases h; first | exact .inl rfl | exact .inr (.inl rfl)
  | boolean =>
    by_cases hv : v.type = some .boolean
    · exact .inr (.inr ⟨hv, rfl⟩)
    · have hnumber : changeTo l v .boolean = changeNumber (fun n ↦ .boolean (n ≠ 0))
          (fun d ↦ some (.boolean (!isZero 64 d.toNat)))
          (fun f ↦ some (.boolean (!isZero 32 f.toNat)))
          (fun d ↦ .boolean (!isZero 64 (l.doubleValue d).toNat))
          (fun s ↦ some (.boolean (s.map l.foldCase =
            (encodeUTF16 "true".toList).map l.foldCase))) v := by
        cases v with
        | boolean b => exact absurd rfl hv
        | _ => rfl
      rw [hnumber] at h
      refine (type_of_changeNumber (fun n ↦ rfl) ?_ ?_ (fun d ↦ rfl) ?_ h).imp_right .inl
      · rintro d _ ⟨⟩
        rfl
      · rintro f _ ⟨⟩
        rfl
      · rintro s _ ⟨⟩
        rfl

theorem ChangeType_eq (hv : v ≠ .null) (ht : columnType vt = some t) :
    ChangeType l v vt = changeTo l v t := by
  rw [ChangeType, if_neg hv, ht]

/-- **A value in its type** is null as the value is, or it is of the type of the column. -/
theorem type_of_inType (h : inType l v vt = some w) :
    v = .null ∧ w = .null ∨ v ≠ .null ∧ ∃ t, columnType vt = some t ∧ w.type = some t := by
  rw [inType] at h
  split_ifs at h with hv
  · obtain rfl := Option.some.inj h
    by_cases hnull : v = .null
    · exact .inl ⟨hnull, hnull⟩
    · obtain ⟨htype, hcolumn⟩ := hv.resolve_left hnull
      exact .inr ⟨hnull, _, hcolumn, htype⟩
  · obtain ⟨hnull, hboolean⟩ := not_or.1 hv
    obtain ⟨hchange, hw⟩ := Option.filter_eq_some_iff.1 h
    have hw : w ≠ .null := of_decide_eq_true hw
    refine .inr ⟨hnull, ?_⟩
    cases hcolumn : columnType vt with
    | none =>
      have hnone : ChangeType l v vt = some .null := by
        rw [ChangeType, if_neg hnull, hcolumn]
      rw [hnone] at hchange
      exact absurd (Option.some.inj hchange).symm hw
    | some t =>
      rw [ChangeType_eq hnull hcolumn] at hchange
      obtain h | h | ⟨hb, ht⟩ := type_of_changeTo hchange
      · exact absurd h hw
      · exact ⟨t, rfl, h⟩
      · exact absurd ⟨hb, ht ▸ hcolumn⟩ hboolean

/-- `ChangeType` makes the value in its type, unless it is a `Boolean`. -/
theorem ChangeType_of_inType (h : inType l v vt = some w) (hv : ¬ IsBoolean v vt) :
    ChangeType l v vt = some w := by
  rw [inType] at h
  by_cases hnull : v = .null
  · rw [if_pos (.inl hnull)] at h
    rw [← Option.some.inj h, ChangeType, if_pos hnull, hnull]
  · rw [if_neg (not_or.2 ⟨hnull, hv⟩)] at h
    exact (Option.filter_eq_some_iff.1 h).1

/-- **Two values of one type are compared** as they should be, but for arrays of bytes. -/
theorem eq_of_type {caseSensitive : Bool} (hv : v.type = some t) (hw : w.type = some t)
    (ht : t ≠ .bytes) :
    eq l caseSensitive v w = some (if matching l caseSensitive v w = true then 1 else 0) := by
  cases v with
  | null | char _ | date _ | other _ => cases hv
  | bytes a =>
    cases hv
    exact absurd rfl ht
  | _ =>
    cases hv
    cases w <;> first | (cases hw; done) | rfl | simp [eq, matching, Obj.same]

theorem floatEq_comm (width infinity a b : ℕ) :
    floatEq width infinity a b = floatEq width infinity b a := by
  rw [floatEq, floatEq, Bool.and_comm (decide (a % _ ≤ _)), Bool.and_comm (isZero width a)]
  simp only [eq_comm]

theorem matching_comm (l : Library) (caseSensitive : Bool) (v w : Obj) :
    matching l caseSensitive v w = matching l caseSensitive w v := by
  have hsame (v w : Obj) : v.same w = w.same v := by
    cases v <;> cases w <;>
      simp [Obj.same, floatEq_comm, BigDecimal.same, eq_comm]
  have h := hsame v w
  cases v with
  | string s =>
    cases w with
    | string t => simp [matching, sameText, eq_comm]
    | _ => exact h
  | _ => cases w <;> exact h

end SocketPro.Java
