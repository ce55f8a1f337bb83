import SocketPro.Foundation.ReadBack
import SocketPro.Go.SaveMethods

/-!
# The values that `Save` accepts

`Save` appends values without tags, so each is read with the `Load` method of its type. The switch
of `Save` leaves out an `AStr` and a `[]int8` without elements: nothing is written for them, but
their reader takes a length.

`Argument.sized` says of every value under which condition it comes back, and what its reader takes.
-/

namespace SocketPro.Go.SaveLoad

open Bytes Machine Unicode Calendar Slices CUQueue

/-! ### Values -/

/-- What `Save` has a case for. -/
inductive Argument
  | nil
  | string (s : GoString)
  | AStr (s : GoString)
  | num (t : Num) (n : t.Val)
  | int (n : BitVec 64)
  | uint (n : BitVec 64)
  | int8 (n : BitVec 8)
  | byte (n : BitVec 8)
  | bool (b : Bool)
  | time (t : Time)
  | decimal (d : DECIMAL)
  | uuid (id : UUID)
  /-- `[]byte`. -/
  | bytes (s : List UInt8)
  | int8s (s : List (BitVec 8))
  /-- There is no case for `[]int64`. -/
  | nums (t : Num) (ht : t ≠ .int64) (ns : List t.Val)
  | ints (ns : List (BitVec 64))
  | uints (ns : List (BitVec 64))
  | strings (ss : List GoString)
  /-- `[]*string`. -/
  | stringPtrs (ss : List (Option GoString))
  /-- `[]AStr`. -/
  | AStrs (ss : List GoString)
  | AStrArray (ss : List (Option GoString))
  | bools (bs : List Bool)
  | times (ts : List Time)
  | decimals (ds : List DECIMAL)
  | uuids (ids : List UUID)

namespace Argument

/-- The memory of a `bool`. -/
def boolByte (b : Bool) : BitVec 8 := if b then 1 else 0

/-- The `switch` of `Save`. -/
def writes : Argument → List Write
  | nil => SaveString none
  | string s => SaveString (some s)
  | int n => saveBits 4 (low n)
  | num t n => saveBits t.size n
  | time t => SaveDate t
  | bool b => SaveBool b
  | bytes s => SaveAString (some s)
  | decimal d => SaveDecimal d
  | uuid id => SaveUUID id
  | uint n => saveBits 4 (low n)
  | int8 n => saveBits 1 n
  | int8s s =>
    if 0 < s.length % 2 ^ 32 then SaveAString (some (s.map UInt8.ofBitVec)) else []
  | AStr s => if 0 < s.length % 2 ^ 32 then SaveAString (some s) else []
  | byte n => saveBits 1 n
  | stringPtrs ss => saveLoop SaveString ss
  | strings ss => saveRange (fun s ↦ SaveString (some s)) ss
  | AStrArray ss => saveLoop SaveAString ss
  | AStrs ss => saveRange (fun s ↦ SaveAString (some s)) ss
  | ints ns => saveLoop (fun n ↦ saveBits 4 (low n)) ns
  | nums t _ ns => saveNumbers t.size ns
  | decimals ds => saveLoop SaveDecimal ds
  | uints ns => saveLoop (fun n ↦ saveBits 4 (low n)) ns
  | uuids ids => saveLoop SaveUUID ids
  | bools bs => saveNumbers 1 (bs.map boolByte)
  | times ts => saveLoop SaveDate ts

/-- The strings behind the pointers, if none of these is `nil`. -/
def derefs (ss : List (Option GoString)) : Option (List GoString) := ss.mapM id

/-- The `Load` method of the type of a value. A pointer that it returns is followed, a number
converted to the type. -/
def Load : Argument → Reader Argument
  | nil | string _ => do
    let s ← LoadString
    pure (s.elim nil string)
  | AStr _ => do
    let s ← LoadAString
    pure (s.elim nil AStr)
  | num t _ => do
    let n ← loadBits t.size
    pure (num t n)
  | int _ => do
    let n ← loadBits 4
    pure (int (n.signExtend 64))
  | uint _ => do
    let n ← loadBits 4
    pure (uint (n.setWidth 64))
  | int8 _ => do
    let n ← loadBits 1
    pure (int8 n)
  | byte _ => do
    let n ← loadBits 1
    pure (byte n)
  | bool _ => do
    let b ← LoadBool
    pure (bool b)
  | time _ => do
    let t ← LoadDate
    pure (time t)
  | decimal _ => do
    let d ← LoadDecimal
    pure (decimal d)
  | uuid _ => do
    let id ← LoadUUID
    pure (uuid id)
  -- `LoadBytes`
  | bytes _ => do
    let s ← LoadAString
    pure (s.elim nil bytes)
  | int8s _ => do
    let s ← LoadAString
    pure (s.elim nil fun s ↦ int8s (s.map UInt8.toBitVec))
  | nums t ht _ => do
    let ns ← loadNumbers t.size
    pure (nums t ht ns)
  | ints _ => do
    let ns ← loadNumbers 4
    pure (ints (ns.map (·.signExtend 64)))
  | uints _ => do
    let ns ← loadNumbers 4
    pure (uints (ns.map (·.setWidth 64)))
  | strings _ => do
    let ss ← loadLoop LoadString
    pure ((derefs ss).elim (stringPtrs ss) strings)
  | stringPtrs _ => do
    let ss ← loadLoop LoadString
    pure (stringPtrs ss)
  | AStrs _ => do
    let ss ← loadLoop LoadAString
    pure ((derefs ss).elim (AStrArray ss) AStrs)
  | AStrArray _ => do
    let ss ← loadLoop LoadAString
    pure (AStrArray ss)
  | bools _ => do
    let ns ← loadNumbers 1
    pure (bools (ns.map fun n ↦ decide (n ≠ 0)))
  | times _ => do
    let ts ← loadLoop LoadDate
    pure (times ts)
  | decimals _ => do
    let ds ← loadLoop LoadDecimal
    pure (decimals ds)
  | uuids _ => do
    let ids ← loadLoop LoadUUID
    pure (uuids ids)

/-! ### When a value comes back -/

/-- What the reader of a value takes. -/
def size : Argument → ℕ
  | nil => 4
  | string s => stringSize (some s)
  | AStr s | bytes s => AStringSize (some s)
  | num t _ => t.size
  | int _ | uint _ => 4
  | int8 _ | byte _ | bool _ => 1
  | time _ => 8
  | decimal _ | uuid _ => 16
  | int8s s => 4 + s.length
  | nums t _ ns => numbersSize t.size ns.length
  | ints ns | uints ns => 4 + 4 * ns.length
  | strings ss => 4 + (ss.map fun s ↦ stringSize (some s)).sum
  | stringPtrs ss => 4 + (ss.map stringSize).sum
  | AStrs ss => 4 + (ss.map fun s ↦ AStringSize (some s)).sum
  | AStrArray ss => 4 + (ss.map AStringSize).sum
  | bools bs => numbersSize 1 bs.length
  | times ts => 4 + 8 * ts.length
  | decimals ds => 4 + 16 * ds.length
  | uuids ids => 4 + 16 * ids.length

/-- An `int` with 32 bits. -/
def IntFits (n : BitVec 64) : Prop := -2 ^ 31 ≤ n.toInt ∧ n.toInt < 2 ^ 31

/-- A `uint` with 32 bits. -/
def UintFits (n : BitVec 64) : Prop := n.toNat < 2 ^ 32

/-- A time that the word has room for, in whole 100 nanoseconds. -/
def WholeTime (t : Time) : Prop := TimeFits t ∧ t.nsec % 100 = 0

/-- **The values that come back**, if the array is long enough for them. -/
def Restorable : Argument → Prop
  | string s => ValidUTF8 s
  -- nothing is written for these
  | AStr s => s ≠ []
  | int8s s => s ≠ []
  | int n => IntFits n
  | uint n => UintFits n
  | time t => WholeTime t
  | decimal d => SignFits d
  | nums t _ ns => Counted ns ∧ ∀ n ∈ ns.drop (writtenNumbers t.size ns.length), n = 0
  | ints ns => ∀ n ∈ ns, IntFits n
  | uints ns => ∀ n ∈ ns, UintFits n
  | strings ss => ∀ s ∈ ss, ValidUTF8 s
  | stringPtrs ss => ∀ s, some s ∈ ss → ValidUTF8 s
  | bools bs => Counted bs
  | times ts => ∀ t ∈ ts, WholeTime t
  | decimals ds => ∀ d ∈ ds, SignFits d
  | _ => True

/-- Numbers that are written one by one and read as memory, whose size has 32 bits. -/
def Storable : Argument → Prop
  | ints ns | uints ns => 4 * (ns.length % 2 ^ 32) < 2 ^ 32
  | _ => True

theorem signExtend_low_iff (n : BitVec 64) : (low n).signExtend 64 = n ↔ IntFits n := by
  rw [← BitVec.toInt_inj, BitVec.toInt_signExtend_of_le (by decide), low, IntFits]
  rw [BitVec.truncate_eq_setWidth, BitVec.toInt_setWidth, BitVec.toInt_eq_toNat_bmod]
  have hn := n.isLt
  simp only [Int.bmod]
  omega

theorem setWidth_low_iff (n : BitVec 64) : (low n).setWidth 64 = n ↔ UintFits n := by
  rw [← BitVec.toNat_inj, low, UintFits, BitVec.toNat_setWidth, BitVec.truncate_eq_setWidth,
    BitVec.toNat_setWidth]
  have hn := n.isLt
  omega

theorem loadDate_toUTime_self_iff (t : Time) : loadDate (toUTime t) = t ↔ WholeTime t := by
  have hwhole : truncate t = t ↔ t.nsec % 100 = 0 := by
    constructor
    · intro h
      have hnsec : t.nsec / 100 * 100 = t.nsec := congrArg Time.nsec h
      omega
    · intro h
      exact Time.ext rfl rfl rfl rfl (Nat.div_mul_cancel (Nat.dvd_of_mod_eq_zero h)) rfl
  rw [WholeTime, TimeFits, ← loadDate_toUTime_iff, ← hwhole]
  constructor
  · intro h
    have hself : truncate t = t := by
      rw [← h]
      exact truncate_loadDate (toUTime_lt t)
    exact ⟨h.trans hself.symm, hself⟩
  · rintro ⟨h, hself⟩
    exact h.trans hself

/-- A value of as many bytes as its reader takes, as an argument. -/
theorem scalar_sized {α : Type} {x : Reader α} {s : List UInt8} {n : ℕ} {a : α} (f : α → Argument)
    (v : Argument) (hlen : s.length = n) (hx : Decodes LIMIT x s a) (ht : ∀ a, Takes x n a) :
    Sized LIMIT (x >>= fun a ↦ (pure (f a) : Reader Argument)) s n v (f a = v) :=
  fixed_sized hlen (hx.map f) (Takes.map fun a _ ↦ ht a)

/-- A string of which nothing is written if it is empty. -/
theorem unless_empty_sized {α : Type} {x : Reader α} {a : α} {s : List UInt8}
    (h : Sized LIMIT x (bytesOf (SaveAString (some s))) (4 + s.length) a True) :
    Sized LIMIT x
      (bytesOf (if 0 < s.length % 2 ^ 32 then SaveAString (some s) else [])) (4 + s.length) a
      (s ≠ []) := by
  by_cases hzero : 0 < s.length % 2 ^ 32
  · rw [if_pos hzero]
    have hne : s ≠ [] := by
      rintro rfl
      exact absurd hzero (Nat.lt_irrefl 0)
    exact h.congr fun _ ↦ iff_of_true trivial hne
  · rw [if_neg hzero]
    refine ⟨Nat.zero_le _, h.takes, fun hn hne ↦ ?_, fun hn hb ↦ ?_⟩
    · have hpos := List.length_pos_iff.2 hne
      have hlimit : 4 + s.length < 2 ^ 32 := hn
      omega
    · have hshort : 0 = 4 + s.length := hb
      omega

theorem elim_some_inj {f : GoString → Argument} (hf : Function.Injective f)
    (hnil : ∀ s, f s ≠ nil) (s : GoString) (t : Option GoString) (h : t.elim nil f = f s) :
    t = some s := by
  cases t with
  | none => exact absurd h.symm (hnil s)
  | some t => exact congrArg some (hf h)

theorem derefs_eq_some {ss : List (Option GoString)} {ts : List GoString} :
    derefs ss = some ts ↔ ss = ts.map some := by
  rw [derefs, mapM_eq_some, List.map_id]

/-- A slice behind pointers, none of which is `nil`. -/
theorem derefs_sized {x : Reader (List (Option GoString))} {s : List UInt8} {n : ℕ}
    {ss : List GoString} {P : Prop} {f : List (Option GoString) → Argument}
    {g : List GoString → Argument} (hg : Function.Injective g) (hfg : ∀ a b, f a ≠ g b)
    (h : Sized LIMIT x s n (ss.map some) P) :
    Sized LIMIT (x >>= fun ss ↦ (pure ((derefs ss).elim (f ss) g) : Reader Argument)) s n
      (g ss) P := by
  have hsame : (derefs (ss.map some)).elim (f (ss.map some)) g = g ss := by
    rw [derefs_eq_some.2 rfl, Option.elim_some]
  rw [← hsame]
  refine h.map (f := fun ss ↦ (derefs ss).elim (f ss) g) fun ts hts ↦ ?_
  rw [hsame] at hts
  cases hderefs : derefs ts with
  | none =>
    rw [hderefs] at hts
    exact absurd hts (hfg ts ss)
  | some us =>
    rw [hderefs] at hts
    rw [derefs_eq_some.1 hderefs, hg hts]

theorem stringSize_pos (s : Option GoString) : 0 < stringSize s :=
  Nat.lt_of_lt_of_le (by decide) (Nat.le_add_right 4 _)

theorem AStringSize_pos (s : Option (List UInt8)) : 0 < AStringSize s :=
  Nat.lt_of_lt_of_le (by decide) (Nat.le_add_right 4 _)

theorem length_loadNumbers_lt {w : ℕ} {c rest : List UInt8} {ns : List (BitVec (8 * w))}
    (h : loadNumbers w c = .ok ns rest) : ns.length < 2 ^ 32 := by
  obtain ⟨size, u, hsize, hu⟩ := Effect.bind_eq_ok.1 h
  obtain ⟨-, rfl, -⟩ := take_map_inv hsize
  have hlt : ofLE (c.take 4) < 2 ^ 32 :=
    lt_of_lt_of_le (ofLE_lt _) (Nat.pow_le_pow_right (by decide) (List.length_take_le _ _))
  split at hu
  · obtain ⟨-, rfl, -⟩ := take_map_inv hu
    rwa [length_numbersOf]
  · cases hu
    exact Nat.two_pow_pos 32

/-- The bytes of a loop over numbers. -/
theorem bytesOf_lowNumbers (ns : List (BitVec 64)) :
    bytesOf (saveLoop (fun n ↦ saveBits 4 (low n)) ns) =
      Go.saveLoop (fun n ↦ Go.saveBits 4 (low n)) ns := by
  rw [bytesOf_saveLoop]
  simp only [saveBits, bytesOf_store]

theorem length_lowNumbers (ns : List (BitVec 64)) :
    (bytesOf (saveLoop (fun n ↦ saveBits 4 (low n)) ns)).length =
      4 + 4 * (ns.length % 2 ^ 32) := by
  rw [bytesOf_lowNumbers, Go.saveLoop, List.length_append, length_SaveUInt, ← List.flatMap_map,
    length_flatMap_saveBits, List.length_map, List.length_take_of_le (Nat.mod_le _ _), Nat.mul_comm]

/-- Numbers that are written one by one, read as memory. -/
theorem lowNumbers_sized {ns : List (BitVec 64)} {f : List (BitVec 32) → Argument} {v : Argument}
    (hv : ∀ a, f a = v → a.length = ns.length) (hns : 4 * (ns.length % 2 ^ 32) < 2 ^ 32) :
    Sized LIMIT (loadNumbers 4 >>= fun ns ↦ (pure (f ns) : Reader Argument))
      (bytesOf (saveLoop (fun n ↦ saveBits 4 (low n)) ns)) (4 + 4 * ns.length) v
      (f (ns.map low) = v) := by
  have hlen := length_lowNumbers ns
  refine .of_decodes ?_ (Takes.map fun a ha c rest h ↦ ?_) (fun hn ↦ ?_) fun hn ↦ ?_
  · rw [hlen]
    exact Nat.add_le_add_left (Nat.mul_le_mul_left 4 (Nat.mod_le _ _)) 4
  · -- no more numbers are read than can be counted
    have hcount := length_loadNumbers_lt h
    have htakes := loadNumbers_takes 4 a c rest h
    rw [numbersSize, hv a ha] at htakes
    rw [hv a ha] at hcount
    omega
  · have hlimit : 4 + 4 * ns.length < 2 ^ 32 := hn
    rw [hlen]
    omega
  · have hlimit : 4 + 4 * ns.length < 2 ^ 32 := hn
    have hcount : ns.length % 2 ^ 32 = ns.length := Nat.mod_eq_of_lt (by omega)
    have hread : rereadLoop low ns = ns.map low := by
      rw [rereadLoop, hcount, List.take_length]
    rw [hcount, bytesOf_lowNumbers] at hlen
    have hdecodes : Decodes LIMIT (loadNumbers 4) (Go.saveLoop (fun n ↦ Go.saveBits 4 (low n)) ns)
        (rereadLoop low ns) :=
      loadNumbers_decodes_loop (w := 4) (by decide) (by decide) (by rwa [hlen])
    rw [hread] at hdecodes
    rw [bytesOf_lowNumbers]
    exact hdecodes.map f

/-- Elements of one size. -/
theorem sum_const {α : Type} (arr : List α) (n : ℕ) :
    (arr.map fun _ ↦ n).sum = n * arr.length := by
  rw [List.map_const', List.sum_replicate, smul_eq_mul, Nat.mul_comm]

theorem map_eq_self_iff {α : Type} {f : α → α} {l : List α} :
    l.map f = l ↔ ∀ a ∈ l, f a = a := by
  conv_lhs => rhs; rw [← List.map_id l]
  exact List.map_inj_left

theorem saveRange_map {α β : Type} (f : β → List UInt8) (g : α → β) (arr : List α) :
    Go.saveRange f (arr.map g) = Go.saveRange (fun a ↦ f (g a)) arr := by
  rw [Go.saveRange, Go.saveRange, List.length_map, List.flatMap_map]

theorem int8s_sized (s : List (BitVec 8)) :
    Sized LIMIT (Load (int8s s)) (bytesOf (writes (int8s s))) (4 + s.length) (int8s s)
      (s ≠ []) := by
  have hself : (s.map UInt8.ofBitVec).map UInt8.toBitVec = s := by
    rw [List.map_map]
    exact List.map_id s
  have hinj : Function.Injective fun s : GoString ↦ int8s (s.map UInt8.toBitVec) := fun _ _ h ↦
    List.map_injective_iff.2 (fun _ _ ↦ UInt8.toBitVec_inj.1) (int8s.inj h)
  have hread := (AString_sized (some (s.map UInt8.ofBitVec))).map
    (f := fun s : Option GoString ↦ s.elim nil fun s ↦ int8s (s.map UInt8.toBitVec))
    (elim_some_inj hinj nofun _)
  rw [Option.elim_some, hself] at hread
  have hempty := unless_empty_sized hread
  rw [List.length_map] at hempty
  exact hempty.congr fun _ ↦ not_congr List.map_eq_nil_iff

/-- The memory of a `bool` is looked at, not what it was made of. -/
theorem bools_sized (bs : List Bool) :
    Sized LIMIT (Load (bools bs)) (bytesOf (writes (bools bs))) (numbersSize 1 bs.length) (bools bs)
      (Counted bs) := by
  have hlen := length_saveNumbers 1 (bs.map boolByte)
  have hdecodes := loadNumbers_decodes 1 (bs.map boolByte)
  have hself : (bs.map boolByte).map (fun n ↦ decide (n ≠ 0)) = bs := by
    rw [List.map_map, map_eq_self_iff]
    exact fun b _ ↦ by cases b <;> rfl
  rw [List.length_map] at hlen
  rw [← bytesOf_saveNumbers] at hdecodes
  refine Sized.congr (.of_decodes (Nat.le_of_eq hlen) (Takes.map fun ns hns ↦ ?_) (fun _ ↦ hlen)
    fun _ ↦ hdecodes.map fun ns ↦ bools (ns.map fun n ↦ decide (n ≠ 0))) fun _ ↦ ?_
  · have hsize : numbersSize 1 ns.length = numbersSize 1 bs.length := by
      rw [← bools.inj hns, List.length_map]
    exact hsize ▸ loadNumbers_takes 1 ns
  · rw [bools.injEq]
    constructor
    · intro h
      have hcount := congrArg List.length h
      rw [List.length_map, rereadNumbers, length_numbersOf, List.length_map] at hcount
      show bs.length < 2 ^ 32
      omega
    · intro h
      have hlt : (bs.map boolByte).length < 2 ^ 32 := by rwa [List.length_map]
      have hreread : rereadNumbers 1 (bs.map boolByte) = bs.map boolByte := by
        refine (rereadNumbers_eq_iff _ (by decide) (by decide)).2 ⟨hlt, fun n hn ↦ ?_⟩
        have hwritten : writtenNumbers 1 (bs.map boolByte).length =
            (bs.map boolByte).length := by
          rw [writtenNumbers]
          omega
        rw [hwritten, List.drop_length] at hn
        exact absurd hn List.not_mem_nil
      rw [hreread, hself]

/-- **When a value comes back, and what it takes.** -/
theorem sized (x : Argument) (hx : x.Storable) :
    Sized LIMIT x.Load (bytesOf x.writes) x.size x x.Restorable := by
  cases x with
  | nil =>
    have hread := (string_sized none).map (f := fun s : Option GoString ↦ s.elim nil string)
      fun s h ↦ by cases s <;> [rfl; cases h]
    exact hread.congr fun _ ↦ iff_of_true (by simp) trivial
  | string s =>
    have hread := (string_sized (some s)).map (f := fun s : Option GoString ↦ s.elim nil string)
      (elim_some_inj (fun _ _ h ↦ string.inj h) (by simp) s)
    refine hread.congr fun _ ↦ ?_
    simp only [Option.mem_some_iff, forall_eq', Restorable]
  | AStr s =>
    refine unless_empty_sized ?_
    exact (AString_sized (some s)).map (f := fun s : Option GoString ↦ s.elim nil AStr)
      (elim_some_inj (fun _ _ h ↦ AStr.inj h) (by simp) s)
  | num t n =>
    have hread := scalar_sized (num t) (num t n) (length_saveBits _ _) (loadBits_decodes _ n)
      (loadBits_takes _)
    rw [writes, saveBits, bytesOf_store]
    exact hread.congr fun _ ↦ iff_of_true rfl trivial
  | int n =>
    have hread := scalar_sized (fun n : BitVec 32 ↦ int (n.signExtend 64)) (int n)
      (length_saveBits 4 _) (loadBits_decodes 4 (low n)) (loadBits_takes 4)
    rw [writes, saveBits, bytesOf_store]
    refine hread.congr fun _ ↦ ?_
    rw [int.injEq, signExtend_low_iff]
    rfl
  | uint n =>
    have hread := scalar_sized (fun n : BitVec 32 ↦ uint (n.setWidth 64)) (uint n)
      (length_saveBits 4 _) (loadBits_decodes 4 (low n)) (loadBits_takes 4)
    rw [writes, saveBits, bytesOf_store]
    refine hread.congr fun _ ↦ ?_
    rw [uint.injEq, setWidth_low_iff]
    rfl
  | int8 n =>
    have hread := scalar_sized int8 (int8 n) (length_saveBits 1 _) (loadBits_decodes 1 n)
      (loadBits_takes 1)
    rw [writes, saveBits, bytesOf_store]
    exact hread.congr fun _ ↦ iff_of_true rfl trivial
  | byte n =>
    have hread := scalar_sized byte (byte n) (length_saveBits 1 _) (loadBits_decodes 1 n)
      (loadBits_takes 1)
    rw [writes, saveBits, bytesOf_store]
    exact hread.congr fun _ ↦ iff_of_true rfl trivial
  | bool b =>
    have hread := scalar_sized bool (bool b) (bytesOf_store _ ▸ length_saveBits 1 _)
      (LoadBool_decodes b) fun _ ↦ Takes.map fun n _ ↦ loadBits_takes 1 n
    exact hread.congr fun _ ↦ iff_of_true rfl trivial
  | time t =>
    have hread := (time_sized t).map (f := time) fun _ h ↦ time.inj h
    exact hread.congr fun _ ↦ loadDate_toUTime_self_iff t
  | decimal d => exact (decimal_sized d).map fun _ h ↦ decimal.inj h
  | uuid id => exact (uuid_sized id).map fun _ h ↦ uuid.inj h
  | bytes s =>
    exact (AString_sized (some s)).map (f := fun s : Option GoString ↦ s.elim nil bytes)
      (elim_some_inj (fun _ _ h ↦ bytes.inj h) (by simp) s)
  | int8s s => exact int8s_sized s
  | nums t ht ns =>
    exact (numbers_sized ns t.size_pos t.size_dvd).map fun _ h ↦ eq_of_heq (nums.inj h).2
  | ints ns =>
    refine (lowNumbers_sized (f := fun ns ↦ ints (ns.map (·.signExtend 64))) (fun a ha ↦ ?_)
      hx).congr fun _ ↦ ?_
    · rw [← ints.inj ha, List.length_map]
    · rw [ints.injEq, List.map_map, map_eq_self_iff]
      exact forall₂_congr fun n _ ↦ signExtend_low_iff n
  | uints ns =>
    refine (lowNumbers_sized (f := fun ns ↦ uints (ns.map (·.setWidth 64))) (fun a ha ↦ ?_)
      hx).congr fun _ ↦ ?_
    · rw [← uints.inj ha, List.length_map]
    · rw [uints.injEq, List.map_map, map_eq_self_iff]
      exact forall₂_congr fun n _ ↦ setWidth_low_iff n
  | strings ss =>
    have hread := range_sized (ss.map some) (fun s _ ↦ string_sized s) stringSize_pos
    rw [saveRange_map, List.map_map] at hread
    rw [writes, bytesOf_saveRange]
    refine (derefs_sized (fun _ _ h ↦ strings.inj h) (f := stringPtrs) (by simp) hread).congr fun _ ↦ ?_
    simp only [List.forall_mem_map, Option.mem_some_iff, forall_eq', Restorable]
  | stringPtrs ss =>
    have hread := loop_sized ss (fun s _ ↦ string_sized s) stringSize_pos
    rw [writes, bytesOf_saveLoop]
    refine (hread.map fun _ h ↦ stringPtrs.inj h).congr fun _ ↦ ?_
    exact ⟨fun h s hs ↦ h _ hs s rfl, fun h _ hs s hsome ↦ h s (hsome ▸ hs)⟩
  | AStrs ss =>
    have hread := range_sized (ss.map some) (fun s _ ↦ AString_sized s) AStringSize_pos
    rw [saveRange_map, List.map_map] at hread
    rw [writes, bytesOf_saveRange]
    exact (derefs_sized (fun _ _ h ↦ AStrs.inj h) (f := AStrArray) (by simp) hread).congr fun _ ↦
      iff_of_true (fun _ _ ↦ trivial) trivial
  | AStrArray ss =>
    have hread := loop_sized ss (fun s _ ↦ AString_sized s) AStringSize_pos
    rw [writes, bytesOf_saveLoop]
    exact (hread.map fun _ h ↦ AStrArray.inj h).congr fun _ ↦
      iff_of_true (fun _ _ ↦ trivial) trivial
  | bools bs => exact bools_sized bs
  | times ts =>
    have hread := loop_sized ts (fun t _ ↦ time_sized t) fun _ ↦ by decide
    rw [sum_const] at hread
    rw [writes, bytesOf_saveLoop]
    refine (hread.map fun _ h ↦ times.inj h).congr fun _ ↦ ?_
    exact forall₂_congr fun t _ ↦ loadDate_toUTime_self_iff t
  | decimals ds =>
    have hread := loop_sized ds (fun d _ ↦ decimal_sized d) fun _ ↦ by decide
    rw [sum_const] at hread
    rw [writes, bytesOf_saveLoop]
    exact hread.map fun _ h ↦ decimals.inj h
  | uuids ids =>
    have hread := loop_sized ids (fun id _ ↦ uuid_sized id) fun _ ↦ by decide
    rw [sum_const] at hread
    rw [writes, bytesOf_saveLoop]
    exact (hread.map fun _ h ↦ uuids.inj h).congr fun _ ↦ iff_of_true (fun _ _ ↦ trivial) trivial

/-- What has a size below the limit can be stored. -/
theorem storable_of_size {x : Argument} (h : x.size < 2 ^ 32) : x.Storable := by
  cases x with
  | ints ns | uints ns =>
    have hsize : 4 + 4 * ns.length < 2 ^ 32 := h
    show 4 * (ns.length % 2 ^ 32) < 2 ^ 32
    omega
  | _ => trivial

/-- What has been written could be stored. -/
theorem storable_of_writes {x : Argument} {m m' : Arrays} {q q' : CUQueue} (h : q.Housed m)
    (hb : q.blockSize < 2 ^ 32) (hwrite : writeAll (m, q) x.writes = some (m', q')) :
    x.Storable := by
  cases x with
  | ints ns | uints ns =>
    have hstores : ∀ w ∈ saveLoop (fun n ↦ saveBits 4 (low n)) ns, ∃ s, w = .store s := by
      intro w hw
      rcases List.mem_append.1 hw with hw | hw
      · exact ⟨_, List.mem_singleton.1 hw⟩
      · obtain ⟨n, -, hw⟩ := List.mem_flatMap.1 hw
        exact ⟨_, List.mem_singleton.1 hw⟩
    have hlt := stores_lt h hb hstores hwrite
    rw [length_lowNumbers] at hlt
    show 4 * (ns.length % 2 ^ 32) < 2 ^ 32
    omega
  | _ => trivial

end Argument

end SocketPro.Go.SaveLoad
