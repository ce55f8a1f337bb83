import SocketPro.Foundation.Slices
import SocketPro.Go.ObjectCodec

/-!
# The Go `CUQueue` and the slices it hands out

A queue is a header over a byte array: which array, where the content starts, how long it is. The
arrays are made once and shared by everything that refers to them. `LoadBytes` returns a slice of
the array it reads and copies nothing, so a value that has been read may change when the array is
written again; the other readers copy.

* `CUQueue.PushBytes` — appends behind the content, in the same array while there is room and in a
  larger copy of it otherwise. `pushBytes_ok` says what the content becomes and which slices still
  show what they showed.
* `CUQueue.LoadObject` — `loadObject_ok`: the object has the value the reader of the content gives,
  and its slice, if it has one, lies in what has been read.

The operations are `none` where Go panics or memory is accessed outside the array.
-/

namespace SocketPro.Go.Slices

open Bytes Machine

/-- The byte arrays of the program. -/
abbrev Arrays := Store UInt8

/-- The fields of `CUQueue`; a `nil` buffer is `none`. -/
structure CUQueue where
  buffer : Option ℕ
  len : ℕ
  headPos : ℕ
  blockSize : ℕ
deriving DecidableEq, Repr

/-- `make([]byte, size)`. -/
def zeros (size : ℕ) : List UInt8 := List.replicate size 0

namespace CUQueue

/-! ### The operations -/

/-- The bytes that are in the queue. -/
def content (m : Arrays) (q : CUQueue) : List UInt8 :=
  match q.buffer with
  | none => []
  | some a => m.read ⟨a, q.headPos, q.len⟩

/-- `GetSize`. -/
def GetSize (q : CUQueue) : ℕ := if q.buffer = none then 0 else q.len

/-- `GetMaxSize`. The length of an array is a 32-bit number since it is made with one. -/
def GetMaxSize (m : Arrays) (q : CUQueue) : ℕ :=
  match q.buffer with
  | none => 0
  | some a => (m.elements a).length

/-- `SetSize`. -/
def SetSize (m : Arrays) (q : CUQueue) (size : ℕ) : CUQueue :=
  match q.buffer with
  | none => { q with len := 0, headPos := 0 }
  | some a =>
    let most := sub32 (m.elements a).length q.headPos
    let size := if most < size then most else size
    { q with len := size, headPos := if size = 0 then 0 else q.headPos }

/-- `Realloc`: a new array with the front of the content. -/
def Realloc (m : Arrays) (q : CUQueue) (size : ℕ) : Arrays × CUQueue :=
  let size := if size = 0 then q.blockSize else size
  let len := if size < q.len then size else q.len
  let kept := (q.content m).take len
  (m.alloc (kept ++ zeros (size - kept.length)),
    { q with buffer := some m.length, len := len, headPos := 0 })

/-- The bytes that are free behind the content. -/
def idle (m : Arrays) (q : CUQueue) (a : ℕ) : ℕ :=
  sub32 (sub32 (m.elements a).length q.headPos) q.len

/-- The length of the array that has room for `add` more bytes, before it is cut to 32 bits. -/
def grownSize (m : Arrays) (q : CUQueue) (a add : ℕ) : ℕ :=
  let add := add - q.idle m a
  add / q.blockSize * q.blockSize + (if 0 < add % q.blockSize then q.blockSize else 0) +
    (m.elements a).length

/-- The array of a queue, made if there is none. -/
def withArray (m : Arrays) (q : CUQueue) : Arrays × ℕ :=
  match q.buffer with
  | none => (m.alloc (zeros q.blockSize), m.length)
  | some a => (m, a)

/-- `makeAvailable`: the array with room for `add` more bytes. -/
def makeAvailable (m : Arrays) (q : CUQueue) (add : ℕ) : Option (Arrays × ℕ) :=
  let (m, a) := q.withArray m
  if q.idle m a < add then
    -- an integer division by zero
    if q.blockSize = 0 then none
    else
      let size := q.grownSize m a add % 2 ^ 32
      let old := (m.elements a).take size
      some (m.alloc (old ++ zeros (size - old.length)), m.length)
  else some (m, a)

/-- `PushBytes`. -/
def PushBytes (m : Arrays) (q : CUQueue) (s : List UInt8) : Option (Arrays × CUQueue) := do
  let (m, a) ← q.makeAvailable m (s.length % 2 ^ 32)
  let pos := (q.len + q.headPos) % 2 ^ 32
  -- the slice of the array from `pos` on
  if (m.elements a).length < pos then none
  else pure (m.write a pos (s.take ((m.elements a).length - pos)),
    { q with buffer := some a, len := (q.len + s.length) % 2 ^ 32 })

/-- What every reader does when it has read. -/
def advance (q : CUQueue) (size : ℕ) : CUQueue :=
  { q with len := q.len - size, headPos := if q.len - size = 0 then 0 else q.headPos + size }

/-- A reader that copies what it reads. -/
def load {α : Type} (m : Arrays) (x : Reader α) : Effect Panic CUQueue α := fun q ↦
  match x (q.content m) with
  | .ok a rest => .ok a (q.advance (q.len - rest.length))
  | .throw e rest => .throw e (q.advance (q.len - rest.length))
  | .fault => .fault

/-- `checkAvailable(size)`, and the slice of the array that is taken. -/
def takeSlice (size : ℕ) : Effect Panic CUQueue (Option View) := fun q ↦
  if q.len < size then .throw .remainingData q
  else
    match q.buffer with
    | some a => .ok (some ⟨a, q.headPos, size⟩) (q.advance size)
    -- there is no length to be read from a queue without an array
    | none => .fault

/-- `LoadBytes`. -/
def LoadBytes (m : Arrays) : Effect Panic CUQueue (Option View) := do
  let size ← load m LoadUInt
  if size = STRING_NULL_END then pure none
  else takeSlice size

end CUQueue

/-- What an `interface{}` holds that was read: a value of its own or the slice of an array. -/
inductive Object
  | copied (v : Value)
  | slice (s : Option View)

namespace Object

/-- The value as it is seen now. -/
def value (m : Arrays) : Object → Value
  | copied v => v
  | slice s => .bytesPtr (s.map m.read)

/-- The slices that are seen through an object. -/
def views : Object → List View
  | copied _ => []
  | slice s => s.toList

theorem value_congr {m m' : Arrays} {o : Object} (h : ∀ w ∈ o.views, m'.read w = m.read w) :
    o.value m' = o.value m := by
  rcases o with v | - | w
  · rfl
  · rfl
  · show Value.bytesPtr (some (m'.read w)) = Value.bytesPtr (some (m.read w))
    rw [h w (List.mem_singleton_self w)]

end Object

/-- `LoadObject`: only the case of `[]byte` does not copy. -/
def CUQueue.LoadObject (m : Arrays) : Effect Panic CUQueue Object := do
  let dt ← CUQueue.load m LoadUShort
  if dt = Vbytes then do
    let s ← CUQueue.LoadBytes m
    pure (.slice s)
  else do
    let v ← CUQueue.load m (loadValue dt)
    pure (.copied v)

/-! ### The representation -/

namespace CUQueue

variable {m : Arrays} {q : CUQueue}

/-- The content lies in the array. -/
structure Sound (m : Arrays) (q : CUQueue) : Prop where
  array : ∀ a, q.buffer = some a → a < m.length ∧
    q.headPos + q.len ≤ (m.elements a).length ∧ (m.elements a).length < 2 ^ 32
  none : q.buffer = none → q.headPos = 0 ∧ q.len = 0

/-- The content as a slice. -/
def slice? (q : CUQueue) : Option View := q.buffer.map fun a ↦ ⟨a, q.headPos, q.len⟩

theorem Sound.slice_valid {w : View} (h : q.Sound m) (hw : q.slice? = some w) : w.Valid m := by
  obtain ⟨a, ha, rfl⟩ := Option.map_eq_some_iff.1 hw
  exact ⟨(h.array a ha).1, (h.array a ha).2.1⟩

theorem Sound.length_content (h : q.Sound m) : (q.content m).length = q.len := by
  rw [content]
  split
  · next hnone => exact (h.none hnone).2.symm
  · next a ha =>
    have hvalid : View.Valid m ⟨a, q.headPos, q.len⟩ := ⟨(h.array a ha).1, (h.array a ha).2.1⟩
    exact Store.length_read hvalid

theorem Sound.getSize (h : q.Sound m) : q.GetSize = (q.content m).length := by
  rw [h.length_content, GetSize]
  split
  · next hnone => exact (h.none hnone).2.symm
  · rfl

theorem Sound.len_lt (h : q.Sound m) : q.len < 2 ^ 32 := by
  rcases hq : q.buffer with - | a
  · rw [(h.none hq).2]
    decide
  · have hle := (h.array a hq).2
    omega

/-- A queue stays sound while the arrays grow. -/
theorem Sound.of_grows {m' : Arrays} (h : q.Sound m) (hm : m.Grows m') : q.Sound m' where
  array a ha := by
    obtain ⟨hlt, hle, hbound⟩ := h.array a ha
    rw [hm.same a hlt]
    exact ⟨Nat.lt_of_lt_of_le hlt hm.length_le, hle, hbound⟩
  none := h.none

theorem content_congr {m' : Arrays} (h : ∀ w, q.slice? = some w → m'.read w = m.read w) :
    q.content m' = q.content m := by
  rw [content, content]
  split
  · rfl
  · next a ha =>
    refine h _ ?_
    rw [slice?, ha, Option.map_some]

/-! ### Appending -/

/-- Growing the array does not need one with 2^32 bytes. -/
def Fits (m : Arrays) (q : CUQueue) (n : ℕ) : Prop :=
  q.idle (q.withArray m).1 (q.withArray m).2 < n →
    q.grownSize (q.withArray m).1 (q.withArray m).2 n < 2 ^ 32

/-- Appending `n` bytes does not write where the slice is. -/
def PushApart (m : Arrays) (q : CUQueue) (n : ℕ) (w : View) : Prop :=
  ∀ a, q.buffer = some a → n ≤ q.idle m a → w.Apart a (q.headPos + q.len) n

instance (n : ℕ) : Decidable (q.Fits m n) := by
  unfold Fits
  infer_instance

instance (n : ℕ) (w : View) : Decidable (q.PushApart m n w) :=
  match h : q.buffer with
  | .none => .isTrue fun a ha ↦ by simp [h] at ha
  | .some a => decidable_of_iff (n ≤ q.idle m a → w.Apart a (q.headPos + q.len) n)
      ⟨fun hap b hb ↦ by
        obtain rfl : a = b := Option.some.inj (h.symm.trans hb)
        exact hap, fun hap ↦ hap a h⟩

theorem idle_eq {a : ℕ} (h : q.headPos + q.len ≤ (m.elements a).length)
    (hlt : (m.elements a).length < 2 ^ 32) :
    q.idle m a = (m.elements a).length - q.headPos - q.len := by
  rw [idle, sub32_of_le (by omega) hlt, sub32_of_le (by omega) (by omega)]

/-- The array has room behind what is needed. -/
theorem grownSize_ge {a n : ℕ} (hb : 0 < q.blockSize) :
    (m.elements a).length + (n - q.idle m a) ≤ q.grownSize m a n := by
  have hdiv := Nat.div_add_mod' (n - q.idle m a) q.blockSize
  have hmod := Nat.mod_lt (n - q.idle m a) hb
  rw [grownSize]
  split <;> omega

/-- The array of a queue, whether it has just been made or not. -/
theorem withArray_ok (h : q.Sound m) (hb : q.blockSize < 2 ^ 32) :
    m.Grows (q.withArray m).1 ∧ (q.withArray m).2 < (q.withArray m).1.length ∧
      q.headPos + q.len ≤ ((q.withArray m).1.elements (q.withArray m).2).length ∧
      ((q.withArray m).1.elements (q.withArray m).2).length < 2 ^ 32 ∧
      (q.withArray m).1.read ⟨(q.withArray m).2, q.headPos, q.len⟩ = q.content m ∧
      (∀ w : View, w.array < m.length → (q.withArray m).1.read w = m.read w) ∧
      (q.buffer = some (q.withArray m).2 ∧ (q.withArray m).1 = m ∨
        m.length ≤ (q.withArray m).2) := by
  rcases hq : q.buffer with - | a
  · obtain ⟨hhead, hlen⟩ := h.none hq
    have hwith : q.withArray m = (m.alloc (zeros q.blockSize), m.length) := by
      rw [withArray, hq]
    rw [hwith]
    simp only [Store.elements_alloc_self, Store.length_alloc, zeros, List.length_replicate, hhead,
      hlen, content, hq]
    refine ⟨.alloc _ _, Nat.lt_succ_self _, Nat.zero_le _, hb, ?_,
      fun w hw ↦ Store.read_alloc hw, .inr (Nat.le_refl _)⟩
    exact Store.read_zero _ _ _
  · have hwith : q.withArray m = (m, a) := by rw [withArray, hq]
    obtain ⟨hlt, hle, hbound⟩ := h.array a hq
    rw [hwith]
    refine ⟨.refl m, hlt, hle, hbound, ?_, fun w _ ↦ rfl, .inl ⟨rfl, rfl⟩⟩
    rw [content, hq]

/-- What `makeAvailable` provides. -/
theorem makeAvailable_ok {n : ℕ} (h : q.Sound m) (hpos : 0 < q.blockSize)
    (hb : q.blockSize < 2 ^ 32) (hfit : q.Fits m n) :
    ∃ m' a, q.makeAvailable m n = some (m', a) ∧ m.Grows m' ∧ a < m'.length ∧
      q.headPos + q.len + n ≤ (m'.elements a).length ∧ (m'.elements a).length < 2 ^ 32 ∧
      m'.read ⟨a, q.headPos, q.len⟩ = q.content m ∧
      (∀ w : View, w.array < m.length → m'.read w = m.read w) ∧
      (q.buffer = some a ∧ n ≤ q.idle m a ∨ m.length ≤ a) := by
  obtain ⟨hgrows, halt, hle, hbound, hread, hframe, hwhich⟩ := withArray_ok h hb
  rw [Fits] at hfit
  rcases hwith : q.withArray m with ⟨m₁, a₁⟩
  simp only [hwith] at hgrows halt hle hbound hread hframe hwhich hfit
  have hidle := idle_eq hle hbound
  rcases Nat.lt_or_ge (q.idle m₁ a₁) n with hless | henough
  · -- a larger array with the old one in front
    have hge := grownSize_ge (m := m₁) (q := q) (a := a₁) (n := n) hpos
    have hsize : q.grownSize m₁ a₁ n % 2 ^ 32 = q.grownSize m₁ a₁ n :=
      Nat.mod_eq_of_lt (hfit hless)
    have htake : (m₁.elements a₁).take (q.grownSize m₁ a₁ n) = m₁.elements a₁ :=
      List.take_of_length_le (by omega)
    refine ⟨m₁.alloc (m₁.elements a₁ ++ zeros (q.grownSize m₁ a₁ n - (m₁.elements a₁).length)),
      m₁.length, ?_, hgrows.trans (.alloc _ _), ?_, ?_, ?_, ?_, ?_, .inr hgrows.length_le⟩
    · rw [makeAvailable, hwith]
      simp only [if_pos hless, if_neg (Nat.ne_of_gt hpos), hsize, htake]
    · rw [Store.length_alloc]
      exact Nat.lt_succ_self _
    · rw [Store.elements_alloc_self, List.length_append, zeros, List.length_replicate]
      omega
    · have hlt := hfit hless
      rw [Store.elements_alloc_self, List.length_append, zeros, List.length_replicate]
      omega
    · rw [← hread, Store.read_alloc_append hle]
    · intro w hw
      rw [Store.read_alloc (Nat.lt_of_lt_of_le hw hgrows.length_le), hframe w hw]
  · refine ⟨m₁, a₁, ?_, hgrows, halt, by omega, hbound, hread, hframe, ?_⟩
    · rw [makeAvailable, hwith]
      simp only [if_neg (Nat.not_lt.2 henough)]
    · rcases hwhich with ⟨hbuffer, rfl⟩ | hfresh
      · exact .inl ⟨hbuffer, henough⟩
      · exact .inr hfresh

/-- **`PushBytes` appends**, and a slice that lies apart from what is written keeps its bytes. -/
theorem pushBytes_ok {s : List UInt8} (h : q.Sound m) (hpos : 0 < q.blockSize)
    (hb : q.blockSize < 2 ^ 32) (hs : s.length < 2 ^ 32) (hfit : q.Fits m s.length) :
    ∃ m' a, q.PushBytes m s = some (m', { q with buffer := some a, len := q.len + s.length }) ∧
      m.Grows m' ∧ Sound m' { q with buffer := some a, len := q.len + s.length } ∧
      m'.read ⟨a, q.headPos, q.len + s.length⟩ = q.content m ++ s ∧
      (∀ w : View, w.array < m.length → q.PushApart m s.length w → m'.read w = m.read w) ∧
      (q.buffer = some a ∧ s.length ≤ q.idle m a ∨ m.length ≤ a) := by
  obtain ⟨m₁, a, hmake, hgrows, halt, hroom, hbound, hread, hframe, hwhich⟩ :=
    makeAvailable_ok h hpos hb hfit
  have hpos32 : (q.len + q.headPos) % 2 ^ 32 = q.headPos + q.len := by
    rw [Nat.add_comm, Nat.mod_eq_of_lt (by omega)]
  have hlen32 : (q.len + s.length) % 2 ^ 32 = q.len + s.length := Nat.mod_eq_of_lt (by omega)
  have hstart : ¬ (m₁.elements a).length < q.headPos + q.len := by omega
  have hall : s.take ((m₁.elements a).length - (q.headPos + q.len)) = s :=
    List.take_of_length_le (by omega)
  have hwrite : m₁.Grows (m₁.write a (q.headPos + q.len) s) := .write hroom
  refine ⟨m₁.write a (q.headPos + q.len) s, a, ?_, hgrows.trans hwrite, ?_, ?_, ?_, hwhich⟩
  · simp only [PushBytes, Nat.mod_eq_of_lt hs, hmake, hpos32, hlen32, if_neg hstart, hall,
      Option.bind_eq_bind, Option.bind_some, Option.pure_def]
  · refine ⟨fun b hb' ↦ ?_, fun hnone ↦ by simp at hnone⟩
    obtain rfl : a = b := Option.some.inj hb'
    show a < (m₁.write a (q.headPos + q.len) s).length ∧ q.headPos + (q.len + s.length) ≤ _ ∧ _
    rw [Store.length_write, Store.length_elements_write hroom]
    exact ⟨halt, by omega, hbound⟩
  · rw [Store.read_write_grow halt hroom, hread]
  · intro w hw hapart
    rw [← hframe w hw]
    have hlies : w.Apart a (q.headPos + q.len) s.length := by
      rcases hwhich with ⟨hbuffer, hidle⟩ | hfresh
      · exact hapart a hbuffer hidle
      · exact .inl (by omega)
    exact Store.read_write_apart hlies halt (by omega)

/-! Whether something is written over depends on the lengths of the arrays only. -/

theorem idle_congr {m' : Arrays} {a a' : ℕ}
    (h : (m'.elements a').length = (m.elements a).length) : q.idle m' a' = q.idle m a := by
  rw [idle, idle, h]

theorem PushApart.of_grows {m' : Arrays} {n : ℕ} {w : View} (h : q.PushApart m n w)
    (hq : q.Sound m) (hm : m.Grows m') : q.PushApart m' n w := fun a ha hidle ↦ by
  rw [idle_congr (hm.same a (hq.array a ha).1)] at hidle
  exact h a ha hidle

theorem Fits.of_grows {m' : Arrays} {n : ℕ} (h : q.Fits m n) (hq : q.Sound m) (hm : m.Grows m') :
    q.Fits m' n := by
  have hsame : ((q.withArray m').1.elements (q.withArray m').2).length =
      ((q.withArray m).1.elements (q.withArray m).2).length := by
    rcases hbuffer : q.buffer with - | a
    · have hwith : ∀ m, q.withArray m = (m.alloc (zeros q.blockSize), m.length) := fun m ↦ by
        rw [withArray, hbuffer]
      rw [hwith, hwith, Store.elements_alloc_self, Store.elements_alloc_self]
    · have hwith : ∀ m, q.withArray m = (m, a) := fun m ↦ by rw [withArray, hbuffer]
      rw [hwith, hwith]
      exact hm.same a (hq.array a hbuffer).1
  rw [Fits] at h ⊢
  rw [idle_congr hsame, grownSize, idle_congr hsame, hsame]
  exact h

/-! ### Emptying -/

/-- The queue without its content. -/
def emptied (q : CUQueue) : CUQueue := { q with len := 0, headPos := 0 }

@[simp] theorem setSize_zero (m : Arrays) (q : CUQueue) : q.SetSize m 0 = q.emptied := by
  rw [SetSize, emptied]
  split
  · rfl
  · simp only [Nat.not_lt_zero, if_false, if_true]

@[simp] theorem emptied_buffer (q : CUQueue) : q.emptied.buffer = q.buffer := rfl

theorem content_emptied (m : Arrays) (q : CUQueue) : q.emptied.content m = [] := by
  rw [content]
  split
  · rfl
  · exact Store.read_zero _ _ _

theorem Sound.emptied (h : q.Sound m) : q.emptied.Sound m where
  array a ha := by
    obtain ⟨hlt, _, hbound⟩ := h.array a ha
    exact ⟨hlt, Nat.zero_le _, hbound⟩
  none _ := ⟨rfl, rfl⟩

/-- An empty queue gets an array of the size that is asked for. -/
theorem realloc_emptied {size : ℕ} (m : Arrays) (q : CUQueue) (hsize : size ≠ 0) :
    q.emptied.Realloc m size =
      (m.alloc (zeros size), { q.emptied with buffer := some m.length }) := by
  have hlen : (if size < q.emptied.len then size else q.emptied.len) = 0 :=
    if_neg (Nat.not_lt_zero size)
  simp only [Realloc, if_neg hsize, hlen, List.take_zero, List.length_nil, Nat.sub_zero,
    List.nil_append]
  rfl

theorem sound_fresh {size : ℕ} (m : Arrays) (q : CUQueue) (h : size < 2 ^ 32) :
    Sound (m.alloc (zeros size)) { q.emptied with buffer := some m.length } where
  array a ha := by
    obtain rfl : m.length = a := Option.some.inj ha
    rw [Store.length_alloc, Store.elements_alloc_self, zeros, List.length_replicate]
    exact ⟨Nat.lt_succ_self _, Nat.zero_le _, h⟩
  none hnone := by simp at hnone

/-- Whether a new array is enough does not depend on its number. -/
theorem fits_fresh {m m' : Arrays} {size n : ℕ}
    (h : Fits (m.alloc (zeros size)) { q.emptied with buffer := some m.length } n) :
    Fits (m'.alloc (zeros size)) { q.emptied with buffer := some m'.length } n := by
  simp only [Fits, withArray, grownSize, idle, Store.elements_alloc_self] at h ⊢
  exact h

/-! ### Reading -/

@[simp] theorem advance_buffer (q : CUQueue) (k : ℕ) : (q.advance k).buffer = q.buffer := rfl

@[simp] theorem advance_len (q : CUQueue) (k : ℕ) : (q.advance k).len = q.len - k := rfl

theorem advance_headPos {k : ℕ} (h : k < q.len) : (q.advance k).headPos = q.headPos + k :=
  if_neg (by omega)

theorem advance_zero {k : ℕ} (h : q.len ≤ k) : (q.advance k).headPos = 0 := if_pos (by omega)

theorem Sound.advance (h : q.Sound m) (k : ℕ) : (q.advance k).Sound m where
  array a ha := by
    obtain ⟨hlt, hle, hbound⟩ := h.array a ha
    refine ⟨hlt, ?_, hbound⟩
    rcases Nat.lt_or_ge k q.len with hk | hk
    · rw [advance_headPos hk, advance_len]
      omega
    · rw [advance_zero hk, advance_len]
      omega
  none hnone := by
    obtain ⟨hhead, hlen⟩ := h.none hnone
    rw [advance_zero (by omega), advance_len, hlen]
    exact ⟨rfl, Nat.zero_sub k⟩

/-- One read after the other. -/
theorem advance_advance {i j : ℕ} (h : i + j ≤ q.len) :
    (q.advance i).advance j = q.advance (i + j) := by
  have hlen : q.len - i - j = q.len - (i + j) := Nat.sub_sub _ _ _
  rcases Nat.lt_or_ge (i + j) q.len with hlt | hge
  · have hleft : ¬ q.len - (i + j) = 0 := by omega
    have hi : ¬ q.len - i = 0 := by omega
    simp only [CUQueue.advance, hlen, if_neg hleft, if_neg hi, Nat.add_assoc]
  · have hdone : q.len - (i + j) = 0 := by omega
    simp only [CUQueue.advance, hlen, if_pos hdone]

theorem content_advance {k : ℕ} (h : k ≤ q.len) :
    (q.advance k).content m = (q.content m).drop k := by
  rw [content, content, advance_buffer]
  split
  · rw [List.drop_nil]
  · next a ha =>
    have hpart := m.read_part a q.headPos (n := q.len) (i := k) (k := q.len - k) (by omega)
    have hshort : ((m.read ⟨a, q.headPos, q.len⟩).drop k).length ≤ q.len - k := by
      rw [List.length_drop]
      exact Nat.sub_le_sub_right (List.length_take_le _ _) k
    rw [List.take_of_length_le hshort] at hpart
    rcases Nat.lt_or_ge k q.len with hk | hk
    · rw [advance_headPos hk, advance_len, hpart]
    · have hnone : q.len - k = 0 := by omega
      rw [advance_len, ← hpart, hnone, Store.read_zero, Store.read_zero]

/-- A reader of the content, on the queue. -/
theorem load_eq {α : Type} {x : Reader α} {a : α} {k : ℕ} (h : q.Sound m) (hk : k ≤ q.len)
    (hx : x (q.content m) = .ok a ((q.content m).drop k)) :
    load m x q = .ok a (q.advance k) := by
  have hlen : q.len - ((q.content m).drop k).length = k := by
    rw [List.length_drop, h.length_content]
    omega
  rw [load, hx]
  simp only [hlen]

theorem length_content_le {bytes rest : List UInt8} (h : q.Sound m)
    (hc : q.content m = bytes ++ rest) : q.len = bytes.length + rest.length := by
  rw [← h.length_content, hc, List.length_append]

theorem load_ok {α : Type} {x : Reader α} {a : α} {bytes rest : List UInt8} (h : q.Sound m)
    (hx : Decodes LIMIT x bytes a) (hc : q.content m = bytes ++ rest) :
    load m x q = .ok a (q.advance bytes.length) ∧
      (q.advance bytes.length).content m = rest := by
  have hlen := length_content_le h hc
  have hdrop : (q.content m).drop bytes.length = rest := by rw [hc, List.drop_left]
  have hlimit : (bytes ++ rest).length < LIMIT := by
    rw [← hc, h.length_content]
    exact h.len_lt
  refine ⟨load_eq h (by omega) ?_, ?_⟩
  · rw [hdrop, hc, hx rest hlimit]
  · rw [content_advance (by omega), hdrop]

/-- What `checkAvailable` and the bytes behind it come to. -/
theorem take_inv {n : ℕ} {c s rest : List UInt8} (h : Go.take n c = .ok s rest) :
    n ≤ c.length ∧ s = c.take n ∧ rest = c.drop n := by
  rw [Go.take] at h
  split at h
  · cases h
  · next hlen =>
    cases h
    exact ⟨Nat.not_lt.1 hlen, rfl, rfl⟩

/-- A reader that takes a number of bytes and makes something of them. -/
theorem take_map_inv {α : Type} {n : ℕ} {f : List UInt8 → α} {c rest : List UInt8} {a : α}
    (h : (Go.take n >>= fun raw ↦ (pure (f raw) : Reader α)) c = .ok a rest) :
    n ≤ c.length ∧ a = f (c.take n) ∧ rest = c.drop n := by
  obtain ⟨s, u, hs, hu⟩ := Effect.bind_eq_ok.1 h
  obtain ⟨hlen, rfl, rfl⟩ := take_inv hs
  cases hu
  exact ⟨hlen, rfl, rfl⟩

/-- The slice that is taken shows the front of the content. -/
theorem takeSlice_ok {size a : ℕ} (h : q.Sound m) (hsize : size ≤ q.len)
    (ha : q.buffer = some a) :
    ∃ w, takeSlice size q = .ok (some w) (q.advance size) ∧
      m.read w = (q.content m).take size ∧ w.Valid m ∧ q.buffer = some w.array := by
  obtain ⟨hlt, hle, _⟩ := h.array a ha
  have henough : ¬ q.len < size := Nat.not_lt.2 hsize
  have hinside : q.headPos + size ≤ (m.elements a).length := by omega
  refine ⟨⟨a, q.headPos, size⟩, ?_, ?_, ⟨hlt, hinside⟩, ha⟩
  · rw [takeSlice, if_neg henough, ha]
  · have hpart := m.read_part a q.headPos (n := q.len) (i := 0) (k := size) (by omega)
    rw [Nat.add_zero, List.drop_zero] at hpart
    rw [hpart, content, ha]

/-- The slice `LoadBytes` returns shows what the reader of the content copies. -/
theorem loadBytes_ok {s : Option (List UInt8)} {k : ℕ} (h : q.Sound m) (hk : k ≤ q.len)
    (hx : LoadAString (q.content m) = .ok s ((q.content m).drop k)) :
    ∃ w : Option View, LoadBytes m q = .ok w (q.advance k) ∧ w.map m.read = s ∧
      ∀ v ∈ w, v.Valid m ∧ q.buffer = some v.array := by
  have hlength := h.length_content
  obtain ⟨size, rest, hsize, hrest⟩ := Effect.bind_eq_ok.1 hx
  obtain ⟨hfour, hvalue, rfl⟩ := take_map_inv hsize
  have hload : load m LoadUInt q = .ok size (q.advance 4) := load_eq h (by omega) hsize
  have hcontent : (q.advance 4).content m = (q.content m).drop 4 := content_advance (by omega)
  rw [LoadBytes, Effect.bind_ok hload]
  split at hrest
  · next hnull =>
    -- a null is its length alone
    injection hrest with hs hdrop
    have hfour' : k = 4 := by
      have hlen := congrArg List.length hdrop
      rw [List.length_drop, List.length_drop] at hlen
      omega
    subst hs hfour'
    exact ⟨none, by rw [if_pos hnull]; rfl, rfl, fun v hv ↦ by cases hv⟩
  · next hnull =>
    obtain ⟨hle, rfl, hdrop⟩ := take_map_inv hrest
    rw [List.length_drop] at hle
    have hsum : k = 4 + size := by
      have hlen := congrArg List.length hdrop
      rw [List.length_drop, List.length_drop, List.length_drop] at hlen
      omega
    subst hsum
    obtain ⟨a, ha⟩ : ∃ a, q.buffer = some a := by
      rcases hq : q.buffer with - | a
      · exact absurd (h.none hq).2 (by omega)
      · exact ⟨a, rfl⟩
    have hsize' : size ≤ (q.advance 4).len := by
      rw [advance_len]
      omega
    obtain ⟨w, hw, hread, hvalid⟩ := takeSlice_ok (h.advance 4) hsize' ha
    rw [if_neg hnull, hw, advance_advance (by omega)]
    refine ⟨some w, rfl, ?_, fun v hv ↦ Option.some.inj hv ▸ hvalid⟩
    rw [Option.map_some, hread, hcontent]

/-- **`LoadObject` reads what the reader of the content reads**; the slice of the object is one of
the array of the queue. -/
theorem loadObject_ok {bytes rest : List UInt8} {v : Value} (h : q.Sound m)
    (hx : Decodes LIMIT Go.LoadObject bytes v) (hc : q.content m = bytes ++ rest) :
    ∃ o : Object, LoadObject m q = .ok o (q.advance bytes.length) ∧
      (q.advance bytes.length).content m = rest ∧ o.value m = v ∧
      ∀ w ∈ o.views, w.Valid m ∧ q.buffer = some w.array := by
  have hlen := length_content_le h hc
  have hlength := h.length_content
  have hdrop : (q.content m).drop bytes.length = rest := by rw [hc, List.drop_left]
  have hlimit : (bytes ++ rest).length < LIMIT := by
    rw [← hc, hlength]
    exact h.len_lt
  obtain ⟨dt, c, htag, hvalue⟩ := Effect.bind_eq_ok.1 (hx rest hlimit)
  rw [← hc] at htag
  obtain ⟨htwo, hdt, rfl⟩ := take_map_inv htag
  have hload : load m LoadUShort q = .ok dt (q.advance 2) := load_eq h (by omega) htag
  have hcontent : (q.advance 2).content m = (q.content m).drop 2 := content_advance (by omega)
  -- the tag is part of the bytes
  have hbytes : 2 ≤ bytes.length := by
    have hshort : (bytes ++ []).length < LIMIT := by
      rw [List.append_nil]
      rw [List.length_append] at hlimit
      omega
    obtain ⟨dt', c', htag', _⟩ := Effect.bind_eq_ok.1 (hx [] hshort)
    rw [List.append_nil] at htag'
    exact (take_map_inv htag').1
  have hrest : rest = ((q.advance 2).content m).drop (bytes.length - 2) := by
    rw [hcontent, List.drop_drop, Nat.add_sub_cancel' hbytes, hdrop]
  have hsum : (q.advance 2).advance (bytes.length - 2) = q.advance bytes.length := by
    rw [advance_advance (by omega), Nat.add_sub_cancel' hbytes]
  have hk : bytes.length - 2 ≤ (q.advance 2).len := by
    rw [advance_len]
    omega
  rw [← hcontent, hrest] at hvalue
  have hafter : (q.advance bytes.length).content m = rest := by
    rw [content_advance (by omega), hdrop]
  rw [LoadObject, Effect.bind_ok hload]
  by_cases hslice : dt = Vbytes
  · -- the one case in which nothing is copied
    rw [hslice] at hvalue
    obtain ⟨s, c, hs, hv⟩ := Effect.bind_eq_ok.1 hvalue
    cases hv
    obtain ⟨w, hw, hmap, hvalid⟩ := loadBytes_ok (h.advance 2) hk hs
    refine ⟨.slice w, ?_, hafter, ?_, fun v hv ↦ hvalid v (Option.mem_toList.1 hv)⟩
    · rw [if_pos hslice, Effect.bind_ok hw, hsum]
      rfl
    · show Value.bytesPtr (w.map m.read) = _
      rw [hmap]
  · have hcopy := load_eq (h.advance 2) hk hvalue
    refine ⟨.copied v, ?_, hafter, rfl, fun w hw ↦ absurd hw List.not_mem_nil⟩
    rw [if_neg hslice, Effect.bind_ok hcopy, hsum]
    rfl

end CUQueue

end SocketPro.Go.Slices
