import SocketPro.Go.CUQueue

/-!
# `SaveObject` and `LoadObject`

The two switches of `cuqueue.go`, one on the type of a value and one on the tag. `SaveObject` is
`none` where it panics.

* `LoadObject_decodes` — what `LoadObject` makes of every value that `SaveObject` accepts but a
  slice of interfaces: `loaded`;
* `LoadObject_interfaces` — of a slice of interfaces it makes nothing: its tag is in no case;
* `loadObject_saveObject_iff` — **a value comes back** exactly when it is `Restorable`.
-/

namespace SocketPro.Go

open Bytes Machine Unicode Calendar

/-! ### Tags -/

abbrev Varray : ℕ := 0x2000
abbrev Vempty : ℕ := 0
abbrev Vnull : ℕ := 1
@[match_pattern] abbrev Vint16 : ℕ := 2
@[match_pattern] abbrev Vint : ℕ := 3
@[match_pattern] abbrev Vfloat32 : ℕ := 4
@[match_pattern] abbrev Vfloat64 : ℕ := 5
@[match_pattern] abbrev Vcy : ℕ := 6
@[match_pattern] abbrev Vdate : ℕ := 7
@[match_pattern] abbrev Vutf16 : ℕ := 8
@[match_pattern] abbrev Vbool : ℕ := 11
abbrev Vvariant : ℕ := 12
@[match_pattern] abbrev Vdecimal : ℕ := 14
@[match_pattern] abbrev Vint8 : ℕ := 16
@[match_pattern] abbrev Vbyte : ℕ := 17
@[match_pattern] abbrev Vuint16 : ℕ := 18
@[match_pattern] abbrev Vuint : ℕ := 19
@[match_pattern] abbrev Vint64 : ℕ := 20
@[match_pattern] abbrev Vuint64 : ℕ := 21
@[match_pattern] abbrev Vint32 : ℕ := 22
@[match_pattern] abbrev Vuint32 : ℕ := 23
@[match_pattern] abbrev Vuuid : ℕ := 72
abbrev Vastr : ℕ := Varray + Vint8
abbrev Vbytes : ℕ := Varray + Vbyte

/-- The tag under which a number is written. -/
def Num.tag : Num → ℕ
  | int16 => Vint16 | uint16 => Vuint16 | int32 => Vint | uint32 => Vuint
  | int64 => Vint64 | uint64 => Vuint64 | float32 => Vfloat32 | float64 => Vfloat64

/-- The number that is read under a tag. -/
def Num.ofTag? : ℕ → Option Num
  | Vint16 => some int16 | Vuint16 => some uint16
  | Vint | Vint32 => some int32 | Vuint | Vuint32 => some uint32
  | Vint64 => some int64 | Vuint64 => some uint64
  | Vfloat32 => some float32 | Vfloat64 => some float64
  | _ => none

theorem Num.size_pos (t : Num) : 0 < t.size := by
  cases t <;> decide

theorem Num.size_dvd (t : Num) : t.size ∣ 2 ^ 32 := by
  cases t <;> decide

/-! ### Writing -/

/-- What stands for a `bool`. -/
def SaveBool (b : Bool) : List UInt8 := SaveUShort (if b then 0xffff else 0)

mutual

/-- `SaveObject`. -/
def SaveObject : Value → Option (List UInt8)
  | .nil => some (SaveUShort Vnull)
  | .string s => some (SaveUShort Vutf16 ++ SaveString (some s))
  | .AStr s => some (SaveUShort Vastr ++ SaveAString s)
  | .num t n => some (SaveUShort t.tag ++ saveBits t.size n)
  | .int n => some (SaveUShort Vint ++ saveBits 4 (n.truncate 32))
  | .uint n => some (SaveUShort Vuint ++ saveBits 4 (n.truncate 32))
  | .int8 n => some (SaveUShort Vint8 ++ saveBits 1 n)
  | .byte n => some (SaveUShort Vbyte ++ saveBits 1 n)
  | .bool b => some (SaveUShort Vbool ++ SaveBool b)
  | .time t => some (SaveUShort Vdate ++ SaveDate t)
  | .decimal d => some (SaveUShort Vdecimal ++ SaveDecimal d)
  | .uuid id => some (SaveUShort Vuuid ++ SaveUUID id)
  | .bytes s => some (SaveUShort Vbytes ++ SaveAString s)
  | .int8s s => some (SaveUShort Vastr ++ SaveAString (s.map UInt8.ofBitVec))
  | .stringPtrs ss => some (SaveUShort (Varray + Vutf16) ++ saveLoop SaveString ss)
  | .strings ss => some (SaveUShort (Varray + Vutf16) ++ saveRange (fun s ↦ SaveString (some s)) ss)
  -- `[]int64` is in no case
  | .nums .int64 _ => none
  | .nums t ns => some (SaveUShort (Varray + t.tag) ++ saveNumbers t.size ns)
  | .ints ns => some (SaveUShort (Varray + Vint) ++
      saveLoop (fun n ↦ saveBits 4 (n.truncate 32)) ns)
  | .uints ns => some (SaveUShort (Varray + Vuint) ++
      saveLoop (fun n ↦ saveBits 4 (n.truncate 32)) ns)
  | .bools bs => some (SaveUShort (Varray + Vbool) ++ saveRange SaveBool bs)
  | .times ts => some (SaveUShort (Varray + Vdate) ++ saveLoop SaveDate ts)
  | .decimals ds => some (SaveUShort (Varray + Vdecimal) ++ saveLoop SaveDecimal ds)
  | .uuids ids => some (SaveUShort (Varray + Vuuid) ++ saveLoop SaveUUID ids)
  | .interfaces vs => do
    let elements ← saveElements vs
    pure (SaveUShort (Varray + Vvariant) ++ (SaveUInt vs.length ++ elements))
  | .bytesPtr _ => none

/-- The loop over a `[]interface{}`. -/
def saveElements : List Value → Option (List UInt8)
  | [] => some []
  | v :: vs => do
    let first ← SaveObject v
    let others ← saveElements vs
    pure (first ++ others)

end

/-! ### Reading -/

/-- The decimal of a currency. -/
def cyDecimal (cy : BitVec 64) : DECIMAL where
  wReserved := 0
  Scale := 4
  Sign := if cy.msb then 0x80 else 0
  Hi32 := 0
  Lo64 := cy

/-- The decimal of a currency in an array, where zeros are left as they are made. -/
def cyElement (cy : BitVec 64) : DECIMAL := if cy ≠ 0 then cyDecimal cy else ⟨0, 0, 0, 0, 0⟩

def LoadBool : Reader Bool := do
  let b ← LoadUShort
  pure (decide (0 < b))

def LoadCy : Reader (BitVec 64) := loadBits 8

/-- The cases of single values. -/
def loadSingle : ℕ → Reader Value
  | Vutf16 => do
    let s ← LoadString
    pure (s.elim .nil .string)
  | Vdate => do
    let t ← LoadDate
    pure (.time t)
  | Vdecimal => do
    let d ← LoadDecimal
    pure (.decimal d)
  | Vbool => do
    let b ← LoadBool
    pure (.bool b)
  | Vuuid => do
    let id ← LoadUUID
    pure (.uuid id)
  | Vcy => do
    let cy ← LoadCy
    pure (.decimal (cyDecimal cy))
  | Vint8 => do
    let n ← loadBits 1
    pure (.int8 n)
  | Vbyte => do
    let n ← loadBits 1
    pure (.byte n)
  | dt =>
    match Num.ofTag? dt with
    | some t => do
      let n ← loadBits t.size
      pure (.num t n)
    | none => Effect.raise .deserialization

/-- The cases of arrays, by the tag of an element. There is none for `Vvariant`. -/
def loadArray : ℕ → Reader Value
  | Vutf16 => do
    let ss ← loadLoop LoadString
    pure (.stringPtrs ss)
  | Vdate => do
    let ts ← loadLoop LoadDate
    pure (.times ts)
  | Vint8 => do
    let s ← LoadAString
    pure (s.elim .nil .AStr)
  | Vbyte => do
    let s ← LoadAString
    pure (.bytesPtr s)
  | Vdecimal => do
    let ds ← loadLoop LoadDecimal
    pure (.decimals ds)
  | Vbool => do
    let bs ← loadLoop LoadBool
    pure (.bools bs)
  | Vuuid => do
    let ids ← loadLoop LoadUUID
    pure (.uuids ids)
  | Vcy => do
    let cys ← loadLoop LoadCy
    pure (.decimals (cys.map cyElement))
  | dt =>
    match Num.ofTag? dt with
    | some t => do
      let ns ← loadNumbers t.size
      pure (.nums t ns)
    | none => Effect.raise .deserialization

/-- The `switch` of `LoadObject`. -/
def loadValue (dt : ℕ) : Reader Value :=
  if dt = Vempty ∨ dt = Vnull then pure .nil
  else if Varray ≤ dt then loadArray (dt - Varray)
  else loadSingle dt

/-- `LoadObject`. -/
def LoadObject : Reader Value := do
  let dt ← LoadUShort
  loadValue dt

/-- The tag selects the case. -/
theorem LoadObject_tag (dt : ℕ) {b : List UInt8} {v : Value} (hdt : dt < 2 ^ 16)
    (h : Decodes LIMIT (loadValue dt) b v) : Decodes LIMIT LoadObject (SaveUShort dt ++ b) v :=
  (LoadUShort_decodes hdt).bind h

/-- The tag of a slice of interfaces selects no case. -/
theorem LoadObject_raise {c : List UInt8} (hdt : Varray + Vvariant < 2 ^ 16)
    (hlen : (SaveUShort (Varray + Vvariant) ++ c).length < LIMIT) :
    LoadObject (SaveUShort (Varray + Vvariant) ++ c) = .throw .deserialization c :=
  Effect.bind_ok (LoadUShort_decodes hdt _ hlen)

theorem LoadBool_decodes (b : Bool) : Decodes LIMIT LoadBool (SaveBool b) b := by
  cases b
  · exact (LoadUShort_decodes (n := 0) (by decide)).map fun n ↦ decide (0 < n)
  · exact (LoadUShort_decodes (n := 0xffff) (by decide)).map fun n ↦ decide (0 < n)

/-! ### What is read of what was written -/

/-- A 32-bit number. -/
def low (n : BitVec 64) : BitVec 32 := n.truncate 32

/-- What `LoadObject` makes of a value. -/
def loaded : Value → Value
  | .string s => .string (reread s)
  | .AStr s => .AStr (rereadAStr s)
  | .int n => .num .int32 (low n)
  | .uint n => .num .uint32 (low n)
  | .time t => .time (loadDate (toUTime t))
  | .decimal d => .decimal (rereadDecimal d)
  | .bytes s => .bytesPtr (some (rereadAStr s))
  | .int8s s => .AStr (rereadAStr (s.map UInt8.ofBitVec))
  | .stringPtrs ss => .stringPtrs (rereadLoop (Option.map reread) ss)
  | .strings ss => .stringPtrs (ss.map fun s ↦ some (reread s))
  | .nums t ns => .nums t (rereadNumbers t.size ns)
  | .ints ns => .nums .int32 (rereadLoop low ns)
  | .uints ns => .nums .uint32 (rereadLoop low ns)
  | .times ts => .times (rereadLoop (fun t ↦ loadDate (toUTime t)) ts)
  | .decimals ds => .decimals (rereadLoop rereadDecimal ds)
  | .uuids ids => .uuids (rereadLoop id ids)
  | v => v

/-- The payload behind a tag. -/
theorem length_of_tagged {dt : ℕ} {b : List UInt8} (h : (SaveUShort dt ++ b).length < LIMIT) :
    b.length < LIMIT := lt_of_le_of_lt (by rw [List.length_append]; exact Nat.le_add_left _ _) h

/-- A value behind its tag. -/
theorem LoadObject_tagged {α : Type} (dt : ℕ) {b : List UInt8} {x : Reader α} {a : α}
    (f : α → Value) (hdt : dt < 2 ^ 16) (hx : Decodes LIMIT x b a)
    (hcase : loadValue dt = x >>= fun a ↦ pure (f a)) :
    Decodes LIMIT LoadObject (SaveUShort dt ++ b) (f a) :=
  LoadObject_tag dt hdt (hcase ▸ hx.map f)

theorem Num.tag_lt (t : Num) : Varray + t.tag < 2 ^ 16 := by
  cases t <;> decide

theorem loadValue_num (t : Num) :
    loadValue t.tag = loadBits t.size >>= fun n ↦ pure (.num t n) := by
  cases t <;> rfl

theorem loadValue_nums (t : Num) :
    loadValue (Varray + t.tag) = loadNumbers t.size >>= fun ns ↦ pure (.nums t ns) := by
  cases t <;> rfl

theorem saveObject_nums {t : Num} {ns : List t.Val} {bytes : List UInt8}
    (h : SaveObject (.nums t ns) = some bytes) :
    bytes = SaveUShort (Varray + t.tag) ++ saveNumbers t.size ns := by
  cases t <;> cases h <;> rfl

theorem length_SaveString_pos (s : Option GoString) : 0 < (SaveString s).length := by
  rcases s with - | s <;> simp [SaveString, SaveUInt]

/-- **What `LoadObject` makes of the bytes of a value** that is no slice of interfaces: it returns
`loaded`, and leaves what follows. -/
theorem LoadObject_decodes {x : Value} {bytes : List UInt8} (h : SaveObject x = some bytes)
    (hx : ∀ vs, x ≠ .interfaces vs) (hlen : bytes.length < LIMIT) :
    Decodes LIMIT LoadObject bytes (loaded x) := by
  cases x with
  | nil =>
    cases h
    exact LoadObject_tag Vnull (by decide) (Decodes.pure _)
  | string s =>
    cases h
    exact LoadObject_tagged Vutf16 (fun s : Option GoString ↦ s.elim .nil .string)
      (by decide) (LoadString_decodes (length_of_tagged hlen)) rfl
  | AStr s =>
    cases h
    exact LoadObject_tagged Vastr (fun s : Option GoString ↦ s.elim .nil .AStr)
      (by decide) (LoadAString_decodes (length_of_tagged hlen)) rfl
  | num t n =>
    cases h
    exact LoadObject_tagged t.tag (.num t) (lt_of_le_of_lt (Nat.le_add_left _ _) t.tag_lt)
      (loadBits_decodes t.size n) (loadValue_num t)
  | int n =>
    cases h
    exact LoadObject_tagged Vint (.num .int32) (by decide) (loadBits_decodes 4 (low n)) rfl
  | uint n =>
    cases h
    exact LoadObject_tagged Vuint (.num .uint32) (by decide) (loadBits_decodes 4 (low n)) rfl
  | int8 n =>
    cases h
    exact LoadObject_tagged Vint8 .int8 (by decide) (loadBits_decodes 1 n) rfl
  | byte n =>
    cases h
    exact LoadObject_tagged Vbyte .byte (by decide) (loadBits_decodes 1 n) rfl
  | bool b =>
    cases h
    exact LoadObject_tagged Vbool .bool (by decide) (LoadBool_decodes b) rfl
  | time t =>
    cases h
    exact LoadObject_tagged Vdate .time (by decide) (LoadDate_decodes t) rfl
  | decimal d =>
    cases h
    exact LoadObject_tagged Vdecimal .decimal (by decide) (LoadDecimal_decodes d) rfl
  | uuid id =>
    cases h
    exact LoadObject_tagged Vuuid .uuid (by decide) (loadBits_decodes 16 id) rfl
  | bytes s =>
    cases h
    exact LoadObject_tagged Vbytes .bytesPtr (by decide)
      (LoadAString_decodes (length_of_tagged hlen)) rfl
  | bytesPtr s => cases h
  | int8s s =>
    cases h
    exact LoadObject_tagged Vastr (fun s : Option GoString ↦ s.elim .nil .AStr)
      (by decide) (LoadAString_decodes (length_of_tagged hlen)) rfl
  | nums t ns =>
    obtain rfl := saveObject_nums h
    exact LoadObject_tagged (Varray + t.tag) (.nums t) t.tag_lt (loadNumbers_decodes t.size ns)
      (loadValue_nums t)
  | ints ns =>
    cases h
    exact LoadObject_tagged (Varray + Vint) (.nums .int32) (by decide)
      (loadNumbers_decodes_loop (w := 4) (by decide) (by decide) (length_of_tagged hlen)) rfl
  | uints ns =>
    cases h
    exact LoadObject_tagged (Varray + Vuint) (.nums .uint32) (by decide)
      (loadNumbers_decodes_loop (w := 4) (by decide) (by decide) (length_of_tagged hlen)) rfl
  | strings ss =>
    cases h
    exact LoadObject_tagged (Varray + Vutf16) .stringPtrs (by decide)
      (loadRange_decodes (fun s ↦ length_SaveString_pos (some s)) (length_of_tagged hlen)
        fun s _ hs ↦ LoadString_decodes hs) rfl
  | stringPtrs ss =>
    cases h
    exact LoadObject_tagged (Varray + Vutf16) .stringPtrs (by decide)
      (loadLoop_decodes (length_of_tagged hlen) fun s _ hs ↦ LoadString_decodes hs) rfl
  | bools bs =>
    cases h
    have hread := loadRange_decodes (r := id) (fun b ↦ by cases b <;> decide)
      (length_of_tagged hlen) fun b _ _ ↦ LoadBool_decodes b
    rw [List.map_id] at hread
    exact LoadObject_tagged (Varray + Vbool) .bools (by decide) hread rfl
  | times ts =>
    cases h
    exact LoadObject_tagged (Varray + Vdate) .times (by decide)
      (loadLoop_decodes (length_of_tagged hlen) fun t _ _ ↦ LoadDate_decodes t) rfl
  | decimals ds =>
    cases h
    exact LoadObject_tagged (Varray + Vdecimal) .decimals (by decide)
      (loadLoop_decodes (length_of_tagged hlen) fun d _ _ ↦ LoadDecimal_decodes d) rfl
  | uuids ids =>
    cases h
    exact LoadObject_tagged (Varray + Vuuid) .uuids (by decide)
      (loadLoop_decodes (length_of_tagged hlen) fun id _ _ ↦ loadBits_decodes 16 id) rfl
  | interfaces vs => exact absurd rfl (hx vs)

/-- **A slice of interfaces is not read**, whatever its elements. -/
theorem LoadObject_interfaces {vs : List Value} {bytes rest : List UInt8}
    (h : SaveObject (.interfaces vs) = some bytes) (hlen : (bytes ++ rest).length < LIMIT) :
    ∃ c, LoadObject (bytes ++ rest) = .throw .deserialization c := by
  obtain ⟨elements, -, hbytes⟩ : ∃ elements, saveElements vs = some elements ∧
      SaveUShort (Varray + Vvariant) ++ (SaveUInt vs.length ++ elements) = bytes := by
    simpa [SaveObject, Option.bind_eq_some_iff] using h
  refine ⟨(SaveUInt vs.length ++ elements) ++ rest, ?_⟩
  rw [← hbytes, List.append_assoc] at hlen ⊢
  exact LoadObject_raise (by decide) hlen

/-! ### Exactly when a value comes back -/

/-- A text that the 16-bit units stand for, and whose units can be counted. -/
def TextFits (s : GoString) : Prop :=
  ValidUTF8 s ∧ 2 * (encodeUTF16 (decodeUTF8 s)).length < 2 ^ 32

/-- In UTC, and in a year that the word has room for. -/
def TimeFits (t : Time) : Prop := t.offset = 0 ∧ YearFits t.date.year

def SignFits (d : DECIMAL) : Prop := d.Sign = 0 ∨ d.Sign = 0x80

/-- The length of a slice can be counted in 32 bits. -/
def Counted {α : Type} (arr : List α) : Prop := arr.length < 2 ^ 32

/-- The values that come back. -/
def Restorable : Value → Prop
  | .string s => TextFits s
  | .AStr s => Counted s
  | .time t => TimeFits t
  | .decimal d => SignFits d
  | .bytes s => Counted s
  | .int8s s => Counted s
  | .nums t ns => Counted ns ∧ ∀ n ∈ ns.drop (writtenNumbers t.size ns.length), n = 0
  | .ints ns => Counted ns
  | .uints ns => Counted ns
  | .strings ss => ∀ s ∈ ss, TextFits s
  | .stringPtrs ss => Counted ss ∧ ∀ s, some s ∈ ss → TextFits s
  | .times ts => Counted ts ∧ ∀ t ∈ ts, TimeFits t
  | .decimals ds => Counted ds ∧ ∀ d ∈ ds, SignFits d
  | .uuids ids => Counted ids
  | .interfaces _ => False
  | _ => True

/-- Elements that always come back. -/
theorem rereadLoop_self_iff {α β : Type} (r : α → β) (arr : List α) :
    rereadLoop r arr = arr.map r ↔ Counted arr := by
  rw [rereadLoop_eq_iff]
  exact and_iff_left fun _ _ ↦ rfl

theorem loaded_eq_retype_iff {x : Value} (hx : ∀ vs, x ≠ .interfaces vs) :
    loaded x = x.retype ↔ Restorable x := by
  cases x with
  | string s => exact (iff_of_eq (Value.string.injEq _ _)).trans (reread_eq_iff s)
  | AStr s => exact (iff_of_eq (Value.AStr.injEq _ _)).trans (rereadAStr_eq_iff s)
  | time t => exact (iff_of_eq (Value.time.injEq _ _)).trans (loadDate_toUTime_iff t)
  | decimal d => exact (iff_of_eq (Value.decimal.injEq _ _)).trans (rereadDecimal_eq_iff d)
  | bytes s =>
    simp only [loaded, Value.retype, Value.bytesPtr.injEq, Option.some.injEq]
    exact rereadAStr_eq_iff s
  | int8s s =>
    refine (iff_of_eq (Value.AStr.injEq _ _)).trans ((rereadAStr_eq_iff _).trans ?_)
    rw [List.length_map]
    rfl
  | nums t ns =>
    simp only [loaded, Value.retype, Value.nums.injEq, heq_eq_eq, true_and]
    exact rereadNumbers_eq_iff ns t.size_pos t.size_dvd
  | ints ns =>
    simp only [loaded, Value.retype, Value.nums.injEq, heq_eq_eq, true_and]
    exact rereadLoop_self_iff low ns
  | uints ns =>
    simp only [loaded, Value.retype, Value.nums.injEq, heq_eq_eq, true_and]
    exact rereadLoop_self_iff low ns
  | strings ss =>
    simp only [loaded, Value.retype, Value.stringPtrs.injEq, List.map_inj_left, Option.some.injEq]
    exact forall₂_congr fun s _ ↦ reread_eq_iff s
  | stringPtrs ss =>
    simp only [loaded, Value.retype, Value.stringPtrs.injEq]
    have hloop := rereadLoop_eq_iff (r := Option.map reread) (e := id) ss
    rw [List.map_id] at hloop
    refine hloop.trans (and_congr_right fun _ ↦ ?_)
    constructor
    · intro h s hs
      exact (reread_eq_iff s).1 (Option.some.inj (h (some s) hs))
    · rintro h (- | s) hs
      · rfl
      · exact congrArg some ((reread_eq_iff s).2 (h s hs))
  | times ts =>
    simp only [loaded, Value.retype, Value.times.injEq]
    exact (rereadLoop_eq_iff ts).trans
      (and_congr_right fun _ ↦ forall₂_congr fun t _ ↦ loadDate_toUTime_iff t)
  | decimals ds =>
    simp only [loaded, Value.retype, Value.decimals.injEq]
    have hloop := rereadLoop_eq_iff (r := rereadDecimal) (e := id) ds
    rw [List.map_id] at hloop
    exact hloop.trans (and_congr_right fun _ ↦ forall₂_congr fun d _ ↦ rereadDecimal_eq_iff d)
  | uuids ids =>
    simp only [loaded, Value.retype, Value.uuids.injEq]
    have hloop := rereadLoop_self_iff id ids
    rwa [List.map_id] at hloop
  | interfaces vs => exact absurd rfl (hx vs)
  | _ => exact iff_of_true rfl trivial

/-- **A value that is written comes back, in the type in which it comes back**, and what follows it
is left, exactly if it is `Restorable`. -/
theorem loadObject_saveObject_iff {x : Value} {bytes rest : List UInt8}
    (h : SaveObject x = some bytes) (hlen : (bytes ++ rest).length < LIMIT) :
    LoadObject (bytes ++ rest) = .ok x.retype rest ↔ Restorable x := by
  by_cases hx : ∃ vs, x = .interfaces vs
  · obtain ⟨vs, rfl⟩ := hx
    obtain ⟨c, hthrow⟩ := LoadObject_interfaces h hlen
    rw [hthrow]
    exact iff_of_false (fun h ↦ nomatch h) id
  · have hx' : ∀ vs, x ≠ .interfaces vs := fun vs hvs ↦ hx ⟨vs, hvs⟩
    have hbytes : bytes.length < LIMIT := by
      rw [List.length_append] at hlen
      omega
    rw [LoadObject_decodes h hx' hbytes rest hlen, ← loaded_eq_retype_iff hx']
    constructor
    · intro heq
      injection heq
    · intro heq
      rw [heq]

end SocketPro.Go
