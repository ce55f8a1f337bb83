import Mathlib.Data.List.TakeWhile
import SocketPro.Database.ColumnInfo
import SocketPro.Foundation.Unicode
import SocketPro.Server.ChatDecoding

/-!
# The stream operators of the buffer

`operator<<` and `operator>>` of `CUQueue` for numbers, `std::string`, `std::wstring`, other buffers
and vectors (`membuffer.h`, POSIX build). A `std::wstring` is a list of characters, which the buffer
holds in UTF-16; the conversions are exact.

**What is written.** `push_appended`: a value is appended as `Value.encode` says, if the capacities
on the way suffice (`Value.room`). They do in a buffer whose block size divides 2^31, as the default
does (`room_isSome`). A `std::wstring` is written through `c_str()`, up to its first NUL.

**What is read.** A target is overwritten, but for a buffer, behind whose content the bytes are
pushed. So **the values come back** (`stream_comesBack_iff`) exactly if no `std::wstring` has a NUL
and every buffer that is read into is empty.
-/

namespace SocketPro.Buffer

open Bytes Machine Unicode Database

/-! ### The buffer -/

namespace CUQueue

/-- The constructor. -/
def new (maxLen blockSize : UInt32) : CUQueue where
  content := []
  m_nMaxBuffer := maxLen.toNat
  m_nHeadPos := 0
  m_nBlockSize := if blockSize = 0 then 4096 else blockSize.toNat
  fits := Nat.zero_le _
  max_lt := maxLen.toNat_lt

/-- `GetTailSize()`. -/
def tailSize (q : CUQueue) : ℕ := q.m_nMaxBuffer - q.size - q.m_nHeadPos

/-- `ReallocBuffer(size)`. -/
def reallocBuffer (q : CUQueue) (size : ℕ) : CUQueue :=
  let size := (if size % 2 ^ 32 = 0 then q.m_nBlockSize else size) % 2 ^ 32
  { content := q.content.take size
    m_nMaxBuffer := size
    m_nHeadPos := 0
    m_nBlockSize := q.m_nBlockSize
    fits := by
      rw [Nat.zero_add]
      exact List.length_take_le _ _
    max_lt := Nat.mod_lt _ (by decide) }

/-- `m_nSize -= n`. -/
def shrink (q : CUQueue) (n : ℕ) : CUQueue :=
  { q with
    content := q.content.take (q.size - n)
    fits := by
      have := q.fits
      rw [List.length_take]
      omega }

/-- `SetNull()`. -/
def setNull : Effect CUException CUQueue Unit := fun q ↦
  if q.m_nHeadPos + q.size + 4 ≤ q.m_nMaxBuffer then .ok () q
  else (pushBytes (leBytes 4 0) >>= fun _ q ↦ .ok () (q.shrink 4)) q

/-- `Replace(pos, 4, &n, 4)`. -/
def replace (pos n : ℕ) : Effect CUException CUQueue Unit := fun q ↦
  if h : pos + 4 ≤ q.size then
    .ok () { q with
      content := q.content.take pos ++ (leBytes 4 n ++ q.content.drop (pos + 4))
      fits := by
        have := q.fits
        simp only [List.length_append, List.length_take, List.length_drop, length_leBytes]
        unfold CUQueue.size at h
        omega }
  else .fault

/-- What `iconv` writes into the tail, and `SetSize`. -/
def convert (out : List UInt8) : Effect CUException CUQueue Unit := fun q ↦
  if h : out.length ≤ q.tailSize then
    .ok () { q with
      content := q.content ++ out
      m_nHeadPos := 0
      fits := by
        have := q.fits
        unfold tailSize CUQueue.size at h
        rw [List.length_append]
        omega }
  else .fault

/-- `Utilities::ToUTF16(str, wchars, q, true)`. -/
def toUTF16 (str : List Char) : Effect CUException CUQueue Unit := fun q ↦
  if str = [] then setNull q
  else
    let sizeInput := 4 * str.length
    let q := if q.tailSize < sizeInput + 4 then q.reallocBuffer (sizeInput + 4 + q.size) else q
    (convert (utf16Bytes (encodeUTF16 str)) >>= fun _ ↦ setNull) q

end CUQueue

/-! ### Writing -/

/-- The end of `operator<<(const wchar_t*)`: where the text has not `len` units its length in bytes
is put in the place of the one that was written. -/
def fixLength (start len : ℕ) : Effect CUException CUQueue Unit := fun q ↦
  let diff := q.size - start
  if diff ≠ len * 2 % 2 ^ 32 then CUQueue.replace (start - 4) diff q else .ok () q

/-- `Insert(str, len, UQUEUE_END_POSTION)` and what follows. -/
def insertWide (str : List Char) (len : ℕ) : Effect CUException CUQueue Unit := fun q ↦
  (CUQueue.toUTF16 (str.take len) >>= fun _ ↦ fixLength q.size len) q

/-- `operator<<(const wchar_t*)`, for a text without NUL. -/
def pushWide (str : List Char) : Effect CUException CUQueue Unit := do
  let len := str.length % 2 ^ 32
  let bytes := len * 2 % 2 ^ 32
  pushBytes (leBytes 4 bytes)
  if bytes = 0 then pure () else insertWide str len

/-- A value of one of the types. -/
inductive Value
  | primitive (data : List UInt8)
  | string (str : List UInt8)
  | wstring (str : List Char)
  /-- A `CUQueue` by its content. -/
  | chunk (mc : List UInt8)
  /-- A `std::vector` by the size of its elements, their number and their memory. -/
  | vector (width count : ℕ) (data : List UInt8)
deriving DecidableEq, Repr

namespace Value

/-- A vector has as many elements as it says. -/
def WellFormed : Value → Prop
  | vector width count data => 0 < width ∧ data.length = count * width
  | _ => True

/-- `str.c_str()`. -/
def cStr (str : List Char) : List Char := str.takeWhile (· ≠ '\x00')

/-- `operator<<`. -/
def push : Value → Effect CUException CUQueue Unit
  | primitive data => pushBytes data
  | string str => do
    let size := str.length % 2 ^ 32
    pushBytes (leBytes 4 size)
    if size = 0 then pure () else pushBytes (str.take size)
  | wstring str => pushWide (cStr str)
  | chunk mc => do
    pushBytes (leBytes 4 mc.length)
    pushBytes mc
  | vector width count data => do
    let count := count % 2 ^ 32
    pushBytes (leBytes 4 count)
    if count = 0 then pure () else pushBytes (data.take (count * width % 2 ^ 32))

/-- The bytes of a value. -/
def encode : Value → List UInt8
  | primitive data => data
  | string str => leBytes 4 str.length ++ str
  | wstring str =>
    leBytes 4 (utf16Bytes (encodeUTF16 (cStr str))).length ++ utf16Bytes (encodeUTF16 (cStr str))
  | chunk mc => leBytes 4 mc.length ++ mc
  | vector _ count data => leBytes 4 count ++ data

end Value

/-! ### Reading -/

/-- What a value is read into, with what it holds before. -/
inductive Target
  | primitive (data : List UInt8)
  | string (str : List UInt8)
  | wstring (str : List Char)
  | chunk (mc : CUQueue)
  | vector (width : ℕ) (data : List UInt8)

/-- `operator>>(std::wstring&)`. -/
def popWString : Pop (List Char) :=
  Server.popText .badUnicode fun bytes ↦ decodeUTF16 (utf16Units bytes)

/-- `mc.Push(data)`, for what it leaves in `mc`. -/
def pushInto (mc : CUQueue) (data : List UInt8) : Pop (List UInt8) := fun c ↦
  match pushBytes data mc with
  | .ok () mc => .ok mc.content c
  | .throw e _ => .throw e c
  | .fault => .fault

/-- `operator>>(CUQueue&)`. -/
def popChunk (mc : CUQueue) : Pop (List UInt8) := do
  let size ← popNumber 4 0
  if size ≠ UQUEUE_NULL_LENGTH ∧ size ≠ 0 then do
    let rest ← getSize
    if rest < size then Effect.raise .badChunk
    else do
      let data ← peek size 0
      let content ← pushInto mc data
      let _ ← discard size 0
      pure content
  else pure mc.content

/-- `operator>>(std::vector&)`. -/
def popVector (width : ℕ) : Pop Value := do
  let count ← popNumber 4 0
  if count ≠ 0 then do
    let bytes := count * width % 2 ^ 32
    let rest ← getSize
    if rest < bytes then Effect.raise .badArray
    else do
      -- `data.resize(count)` has made room for all of them.
      let data ← popInto (count * width) bytes 0
      pure (.vector width count data)
  else pure (.vector width 0 [])

/-- `operator>>`. -/
def Target.pop : Target → Pop Value
  | primitive data => do return .primitive (← popInto data.length data.length 0)
  | string _ => do return .string (← Server.popString)
  | wstring _ => do return .wstring (← popWString)
  | chunk mc => do return .chunk (← popChunk mc)
  | vector width _ => popVector width

/-- The target has the type of the value. -/
def Matches : Value → Target → Prop
  | .primitive data, .primitive old => data.length = old.length
  | .string _, .string _ => True
  | .wstring _, .wstring _ => True
  | .chunk _, .chunk _ => True
  | .vector width _ _, .vector width' _ => width = width'
  | _, _ => False

/-- All values, one after the other. -/
def pushAll : List Value → Effect CUException CUQueue Unit
  | [] => pure ()
  | v :: vs => do
    v.push
    pushAll vs

/-- All targets, one after the other. -/
def popAll : List Target → Pop (List Value)
  | [] => pure []
  | t :: ts => do
    let v ← t.pop
    let vs ← popAll ts
    pure (v :: vs)

/-- **The values come back**, and the buffer is empty then. -/
def ComesBack (q : CUQueue) (vs : List Value) (ts : List Target) : Prop :=
  ∃ q', pushAll vs q = .ok () q' ∧ popAll ts q'.content = .ok vs []

/-! ### What is appended -/

/-- From `q` the bytes `bs` are appended and the capacity becomes `m?`, the content staying at the
beginning of the memory; without a capacity the program goes wrong. -/
def Appended (q : CUQueue) (bs : List UInt8) (m? : Option ℕ)
    (o : Outcome CUException CUQueue Unit) : Prop :=
  match m? with
  | some m => ∃ q', o = .ok () q' ∧ q'.content = q.content ++ bs ∧ q'.m_nMaxBuffer = m ∧
      q'.m_nBlockSize = q.m_nBlockSize ∧ q'.m_nHeadPos = 0
  | none => o = .fault

theorem Appended.pure {q : CUQueue} (hq : q.m_nHeadPos = 0) :
    Appended q [] (some q.m_nMaxBuffer) ((Pure.pure () : Effect CUException CUQueue Unit) q) :=
  ⟨q, rfl, (List.append_nil _).symm, rfl, rfl, hq⟩

/-- **Sequencing.** -/
theorem Appended.bind {q : CUQueue} {bs bs' : List UInt8} {m? : Option ℕ} {next : ℕ → Option ℕ}
    {x : Effect CUException CUQueue Unit} {f : Unit → Effect CUException CUQueue Unit}
    (hx : Appended q bs m? (x q))
    (hf : ∀ q' : CUQueue, q'.content = q.content ++ bs → q'.m_nBlockSize = q.m_nBlockSize →
      q'.m_nHeadPos = 0 → Appended q' bs' (next q'.m_nMaxBuffer) (f () q')) :
    Appended q (bs ++ bs') (m?.bind next) ((x >>= f) q) := by
  cases m? with
  | none => exact Effect.bind_fault hx
  | some m =>
    obtain ⟨q', hok, hcontent, hmax, hblock, hhead⟩ := hx
    have hnext := hf q' hcontent hblock hhead
    rw [Option.bind_some, Effect.bind_ok hok, ← hmax]
    unfold Appended at hnext ⊢
    cases hm : next q'.m_nMaxBuffer with
    | none =>
      rw [hm] at hnext
      exact hnext
    | some m' =>
      rw [hm] at hnext
      obtain ⟨q'', hok', hcontent', hmax', hblock', hhead'⟩ := hnext
      refine ⟨q'', hok', ?_, hmax', hblock'.trans hblock, hhead'⟩
      rw [hcontent', hcontent, List.append_assoc]

theorem insertBytes_head {buffer : List UInt8} {position : ℕ} {q q' : CUQueue}
    (hq : q.m_nHeadPos = 0) (h : insertBytes buffer position q = .ok () q') : q'.m_nHeadPos = 0 := by
  unfold insertBytes at h
  split_ifs at h with hlen hhead htail hroom hgrow
  all_goals cases h
  · exact hq
  · show q.m_nHeadPos - buffer.length = 0
    omega
  · exact hq
  · rfl
  · rfl

theorem pushBytes_appended {q : CUQueue} (hq : q.m_nHeadPos = 0) (bs : List UInt8) :
    Appended q bs (growth q.m_nBlockSize q.m_nMaxBuffer q.size [bs.length]) (pushBytes bs q) := by
  have hgrowth : q.growth [bs] = growth q.m_nBlockSize q.m_nMaxBuffer q.size [bs.length] := rfl
  have hinserts := pushBytes_inserts q bs
  rw [Inserts, Reaches, hgrowth] at hinserts
  unfold Appended
  cases hm : growth q.m_nBlockSize q.m_nMaxBuffer q.size [bs.length] with
  | none =>
    rw [hm] at hinserts
    exact hinserts
  | some m =>
    rw [hm] at hinserts
    obtain ⟨q', hok, hcontent, hmax, hblock⟩ := hinserts
    refine ⟨q', hok, ?_, hmax, hblock, insertBytes_head hq hok⟩
    rw [hcontent, List.flatten_singleton]
    exact insertAt_length _ _

/-- Nothing is appended without growing. -/
theorem Appended.nothing {q : CUQueue} (hq : q.m_nHeadPos = 0) :
    Appended q [] (growth q.m_nBlockSize q.m_nMaxBuffer q.size [0])
      ((Pure.pure () : Effect CUException CUQueue Unit) q) := by
  have hfits : q.m_nHeadPos + q.size ≤ q.m_nMaxBuffer := q.fits
  have hcapacity : capacity q.m_nBlockSize q.m_nMaxBuffer q.size 0 = q.m_nMaxBuffer :=
    if_pos (Nat.zero_le _)
  have hgrowth : growth q.m_nBlockSize q.m_nMaxBuffer q.size [0] = some q.m_nMaxBuffer := by
    rw [growth, hcapacity, if_pos (by omega), growth]
  rw [hgrowth]
  exact Appended.pure hq

/-- A length and the bytes it announces, which are left out where there are none. -/
theorem prefixed_appended {q : CUQueue} (hq : q.m_nHeadPos = 0) (n : ℕ) {bs : List UInt8}
    {x : Effect CUException CUQueue Unit}
    (hx : ∀ q' : CUQueue, q'.m_nHeadPos = 0 → Appended q' bs
      (growth q'.m_nBlockSize q'.m_nMaxBuffer q'.size [bs.length]) (x q')) :
    Appended q (leBytes 4 n ++ bs) (growth q.m_nBlockSize q.m_nMaxBuffer q.size [4, bs.length])
      ((pushBytes (leBytes 4 n) >>= fun _ ↦ x) q) := by
  have hsplit : growth q.m_nBlockSize q.m_nMaxBuffer q.size [4, bs.length] =
      (growth q.m_nBlockSize q.m_nMaxBuffer q.size [(leBytes 4 n).length]).bind fun m ↦
        growth q.m_nBlockSize m (q.size + 4) [bs.length] := by
    rw [length_leBytes, ← List.singleton_append, growth_append]
    rfl
  rw [hsplit]
  refine (pushBytes_appended hq _).bind fun q' hcontent hblock hhead ↦ ?_
  have hsize : q'.size = q.size + 4 := by
    rw [CUQueue.size, hcontent, List.length_append, length_leBytes]
    rfl
  have hx' := hx q' hhead
  rwa [hsize, hblock] at hx'

/-! ### Wide strings -/

theorem length_encodeUTF16 (str : List Char) :
    str.length ≤ (encodeUTF16 str).length ∧ (encodeUTF16 str).length ≤ 2 * str.length := by
  induction str with
  | nil => exact ⟨le_rfl, le_rfl⟩
  | cons c str ih =>
    have hchar : 1 ≤ (encodeUTF16Char c).length ∧ (encodeUTF16Char c).length ≤ 2 := by
      rw [encodeUTF16Char]
      split <;> simp
    rw [encodeUTF16, List.flatMap_cons, List.length_append, ← encodeUTF16, List.length_cons]
    omega

/-- The capacity after a conversion. -/
def wideRoom (str : List Char) (maxBuffer size : ℕ) : ℕ :=
  if maxBuffer - size < 4 * str.length + 4 then 4 * str.length + 4 + size else maxBuffer

theorem setNull_ok {q : CUQueue} (h : q.m_nHeadPos + q.size + 4 ≤ q.m_nMaxBuffer) :
    CUQueue.setNull q = .ok () q := if_pos h

theorem toUTF16_ok {q : CUQueue} (hq : q.m_nHeadPos = 0) {str : List Char} (hstr : str ≠ [])
    (hsize : 4 * str.length + 4 + q.size < 2 ^ 32) :
    ∃ q', CUQueue.toUTF16 str q = .ok () q' ∧
      q'.content = q.content ++ utf16Bytes (encodeUTF16 str) ∧
      q'.m_nMaxBuffer = wideRoom str q.m_nMaxBuffer q.size ∧
      q'.m_nBlockSize = q.m_nBlockSize ∧ q'.m_nHeadPos = 0 := by
  have hlength := (length_encodeUTF16 str).2
  have hout := length_utf16Bytes (encodeUTF16 str)
  -- with the memory the conversion may need
  have hconvert {r : CUQueue} (hr : r.m_nHeadPos = 0) (hcontent : r.content = q.content)
      (hroom : 4 * str.length + 4 + r.size ≤ r.m_nMaxBuffer) :
      ∃ q', (CUQueue.convert (utf16Bytes (encodeUTF16 str)) >>= fun _ ↦ CUQueue.setNull) r =
          .ok () q' ∧ q'.content = q.content ++ utf16Bytes (encodeUTF16 str) ∧
        q'.m_nMaxBuffer = r.m_nMaxBuffer ∧ q'.m_nBlockSize = r.m_nBlockSize ∧
        q'.m_nHeadPos = 0 := by
    have htail : (utf16Bytes (encodeUTF16 str)).length ≤ r.tailSize := by
      rw [CUQueue.tailSize]
      omega
    have hok : CUQueue.convert (utf16Bytes (encodeUTF16 str)) r = .ok () _ := dif_pos htail
    rw [Effect.bind_ok hok, setNull_ok]
    · exact ⟨_, rfl, congrArg (· ++ _) hcontent, rfl, rfl, rfl⟩
    · have hnew : (r.content ++ utf16Bytes (encodeUTF16 str)).length =
          r.size + (utf16Bytes (encodeUTF16 str)).length := List.length_append
      show 0 + (r.content ++ utf16Bytes (encodeUTF16 str)).length + 4 ≤ r.m_nMaxBuffer
      omega
  have htail : q.tailSize = q.m_nMaxBuffer - q.size := by
    rw [CUQueue.tailSize, hq, Nat.sub_zero]
  have heq : CUQueue.toUTF16 str q =
      (CUQueue.convert (utf16Bytes (encodeUTF16 str)) >>= fun _ ↦ CUQueue.setNull)
        (if q.tailSize < 4 * str.length + 4 then q.reallocBuffer (4 * str.length + 4 + q.size)
          else q) := by
    rw [CUQueue.toUTF16, if_neg hstr]
  rw [heq, wideRoom, ← htail]
  by_cases hless : q.tailSize < 4 * str.length + 4
  · rw [if_pos hless, if_pos hless]
    have hmod : (4 * str.length + 4 + q.size) % 2 ^ 32 = 4 * str.length + 4 + q.size :=
      Nat.mod_eq_of_lt hsize
    have hmax : (q.reallocBuffer (4 * str.length + 4 + q.size)).m_nMaxBuffer =
        4 * str.length + 4 + q.size := by
      show (if (4 * str.length + 4 + q.size) % 2 ^ 32 = 0 then _ else _) % 2 ^ 32 = _
      rw [hmod, if_neg (by omega), hmod]
    have hcontent : (q.reallocBuffer (4 * str.length + 4 + q.size)).content = q.content := by
      show q.content.take ((if (4 * str.length + 4 + q.size) % 2 ^ 32 = 0 then _ else _) % 2 ^ 32) = _
      rw [hmod, if_neg (by omega), hmod]
      refine List.take_of_length_le ?_
      have : q.content.length = q.size := rfl
      omega
    have hsame : (q.reallocBuffer (4 * str.length + 4 + q.size)).size = q.size :=
      congrArg List.length hcontent
    obtain ⟨q', hok, hc, hm, hb, hh⟩ := hconvert (r := q.reallocBuffer (4 * str.length + 4 + q.size))
      rfl hcontent (by rw [hsame, hmax])
    exact ⟨q', hok, hc, hm.trans hmax, hb, hh⟩
  · rw [if_neg hless, if_neg hless]
    exact hconvert hq rfl (by rw [htail] at hless; omega)

theorem replace_ok {q : CUQueue} {c bs : List UInt8} {m n : ℕ}
    (hcontent : q.content = c ++ (leBytes 4 m ++ bs)) :
    ∃ q', CUQueue.replace c.length n q = .ok () q' ∧ q'.content = c ++ (leBytes 4 n ++ bs) ∧
      q'.m_nMaxBuffer = q.m_nMaxBuffer ∧ q'.m_nBlockSize = q.m_nBlockSize ∧
      q'.m_nHeadPos = q.m_nHeadPos := by
  have hsize : c.length + 4 ≤ q.size := by
    rw [CUQueue.size, hcontent]
    simp only [List.length_append, length_leBytes]
    omega
  refine ⟨_, dif_pos hsize, ?_, rfl, rfl, rfl⟩
  show q.content.take c.length ++ (leBytes 4 n ++ q.content.drop (c.length + 4)) = _
  have hdrop : (c ++ (leBytes 4 m ++ bs)).drop (c.length + 4) = bs := by
    rw [← List.append_assoc]
    exact List.drop_left' (by rw [List.length_append, length_leBytes])
  rw [hcontent, List.take_left, hdrop]

/-- The capacity after a text with its length ahead. -/
def wideRoom? (block : ℕ) (str : List Char) (maxBuffer size : ℕ) : Option ℕ :=
  (growth block maxBuffer size [4]).map fun m ↦ if str = [] then m else wideRoom str m (size + 4)

theorem pushWide_appended {q : CUQueue} (hq : q.m_nHeadPos = 0) (str : List Char)
    (hsize : q.size + (4 + (utf16Bytes (encodeUTF16 str)).length) < 2 ^ 31) :
    Appended q (leBytes 4 (utf16Bytes (encodeUTF16 str)).length ++ utf16Bytes (encodeUTF16 str))
      (wideRoom? q.m_nBlockSize str q.m_nMaxBuffer q.size) (pushWide str q) := by
  have hlength := length_encodeUTF16 str
  have hout := length_utf16Bytes (encodeUTF16 str)
  have hmod : str.length % 2 ^ 32 = str.length := Nat.mod_eq_of_lt (by omega)
  have hbytes : str.length * 2 % 2 ^ 32 = str.length * 2 := Nat.mod_eq_of_lt (by omega)
  have hpush := pushBytes_appended hq (leBytes 4 (str.length * 2))
  rw [length_leBytes] at hpush
  rw [pushWide, hmod, hbytes, wideRoom?]
  cases hm : growth q.m_nBlockSize q.m_nMaxBuffer q.size [4] with
  | none =>
    rw [hm] at hpush
    exact Effect.bind_fault hpush
  | some m =>
    rw [hm] at hpush
    obtain ⟨q₁, hok, hcontent, hmax, hblock, hhead⟩ := hpush
    have hsize₁ : q₁.size = q.size + 4 := by
      rw [CUQueue.size, hcontent, List.length_append, length_leBytes]
      rfl
    rw [Effect.bind_ok hok, Option.map_some]
    by_cases hstr : str = []
    · subst hstr
      exact ⟨q₁, rfl, hcontent, hmax, hblock, hhead⟩
    · have hpos := List.length_pos_iff.2 hstr
      rw [if_neg hstr, if_neg (by omega : ¬ str.length * 2 = 0), insertWide, List.take_length]
      obtain ⟨q₂, hok₂, hcontent₂, hmax₂, hblock₂, hhead₂⟩ :=
        toUTF16_ok hhead hstr (by rw [hsize₁]; omega)
      have hdiff : q₂.size - q₁.size = (utf16Bytes (encodeUTF16 str)).length := by
        rw [CUQueue.size, hcontent₂, List.length_append]
        exact Nat.add_sub_cancel_left _ _
      have hstart : q₁.size - 4 = q.content.length := by
        rw [hsize₁]
        exact Nat.add_sub_cancel _ _
      have hmax' : q₂.m_nMaxBuffer = wideRoom str m (q.size + 4) := by rw [hmax₂, hmax, hsize₁]
      rw [hcontent, List.append_assoc] at hcontent₂
      rw [Effect.bind_ok hok₂, fixLength, hdiff, hstart, hbytes]
      by_cases hsame : (utf16Bytes (encodeUTF16 str)).length = str.length * 2
      · rw [if_neg (not_not.2 hsame)]
        refine ⟨q₂, rfl, ?_, hmax', hblock₂.trans hblock, hhead₂⟩
        rw [hcontent₂, hsame]
      · rw [if_pos hsame]
        obtain ⟨q₃, hok₃, hcontent₃, hmax₃, hblock₃, hhead₃⟩ := replace_ok
          (n := (utf16Bytes (encodeUTF16 str)).length) hcontent₂
        exact ⟨q₃, hok₃, hcontent₃, hmax₃.trans hmax', (hblock₃.trans hblock₂).trans hblock,
          hhead₃.trans hhead₂⟩

/-! ### All values -/

/-- The capacity after a value, if the ones on the way suffice. -/
def Value.room (block maxBuffer size : ℕ) : Value → Option ℕ
  | primitive data => growth block maxBuffer size [data.length]
  | string str => growth block maxBuffer size [4, str.length]
  | wstring str => wideRoom? block (cStr str) maxBuffer size
  | chunk mc => growth block maxBuffer size [4, mc.length]
  | vector _ _ data => growth block maxBuffer size [4, data.length]

/-- The capacity after all of them. -/
def room (block : ℕ) : ℕ → ℕ → List Value → Option ℕ
  | maxBuffer, _, [] => some maxBuffer
  | maxBuffer, size, v :: vs =>
    (v.room block maxBuffer size).bind fun m ↦ room block m (size + v.encode.length) vs

/-- **A value is appended.** -/
theorem push_appended {q : CUQueue} (hq : q.m_nHeadPos = 0) {v : Value} (hv : v.WellFormed)
    (hsize : q.size + v.encode.length < 2 ^ 31) :
    Appended q v.encode (v.room q.m_nBlockSize q.m_nMaxBuffer q.size) (v.push q) := by
  cases v with
  | primitive data => exact pushBytes_appended hq data
  | string str =>
    simp only [Value.encode, List.length_append] at hsize
    have hmod : str.length % 2 ^ 32 = str.length := Nat.mod_eq_of_lt (by omega)
    simp only [Value.push, hmod, List.take_length]
    refine prefixed_appended hq _ fun q' hq' ↦ ?_
    by_cases hzero : str.length = 0
    · rw [if_pos hzero, List.length_eq_zero_iff.1 hzero]
      exact .nothing hq'
    · rw [if_neg hzero]
      exact pushBytes_appended hq' str
  | wstring str =>
    simp only [Value.encode, List.length_append, length_leBytes] at hsize
    exact pushWide_appended hq _ hsize
  | chunk mc => exact prefixed_appended hq _ fun q' hq' ↦ pushBytes_appended hq' mc
  | vector width count data =>
    obtain ⟨hwidth, hdata⟩ := hv
    simp only [Value.encode, List.length_append] at hsize
    have hcount : count ≤ data.length := hdata ▸ Nat.le_mul_of_pos_right count hwidth
    have hmod : count % 2 ^ 32 = count := Nat.mod_eq_of_lt (by omega)
    have hmod' : count * width % 2 ^ 32 = data.length := by
      rw [← hdata]
      exact Nat.mod_eq_of_lt (by omega)
    simp only [Value.push, hmod, hmod', List.take_length]
    refine prefixed_appended hq _ fun q' hq' ↦ ?_
    by_cases hzero : count = 0
    · rw [hzero, Nat.zero_mul] at hdata
      rw [if_pos hzero, List.length_eq_zero_iff.1 hdata]
      exact .nothing hq'
    · rw [if_neg hzero]
      exact pushBytes_appended hq' data

/-- **All values are appended**, one behind the other. -/
theorem pushAll_appended {vs : List Value} (hvs : ∀ v ∈ vs, v.WellFormed) {q : CUQueue}
    (hq : q.m_nHeadPos = 0) (hsize : q.size + (vs.flatMap Value.encode).length < 2 ^ 31) :
    Appended q (vs.flatMap Value.encode) (room q.m_nBlockSize q.m_nMaxBuffer q.size vs)
      (pushAll vs q) := by
  induction vs generalizing q with
  | nil => exact .pure hq
  | cons v vs ih =>
    rw [List.flatMap_cons, List.length_append] at hsize
    have hv := push_appended hq (hvs v List.mem_cons_self) (by omega)
    rw [List.flatMap_cons]
    refine hv.bind fun q' hcontent hblock hhead ↦ ?_
    have hsize' : q'.size = q.size + v.encode.length := by
      rw [CUQueue.size, hcontent, List.length_append]
      rfl
    have hrest := ih (fun w hw ↦ hvs w (List.mem_cons_of_mem v hw)) hhead (by omega)
    rwa [hblock, hsize'] at hrest

/-! ### Capacities -/

theorem Value.room_of_block {block : ℕ} (hblock : block ∣ 2 ^ 31) (v : Value) {maxBuffer size : ℕ}
    (hsize : size ≤ maxBuffer) (hlen : size + v.encode.length < 2 ^ 31) :
    ∃ m, v.room block maxBuffer size = some m ∧ size + v.encode.length ≤ m := by
  -- a length and the bytes behind it
  have hprefixed {n : ℕ} {bs : List UInt8} (h : size + (leBytes 4 n ++ bs).length < 2 ^ 31) :
      ∃ m, growth block maxBuffer size [4, bs.length] = some m ∧
        size + (leBytes 4 n ++ bs).length ≤ m := by
    have hsum : (leBytes 4 n ++ bs).length = [4, bs.length].sum := by
      rw [List.length_append, length_leBytes, List.sum_cons, List.sum_singleton]
    rw [hsum] at h ⊢
    exact growth_of_block hblock _ hsize h
  cases v with
  | primitive data =>
    have hsum : [data.length].sum = data.length := List.sum_singleton
    rw [encode, ← hsum] at hlen ⊢
    exact growth_of_block hblock _ hsize hlen
  | string str => exact hprefixed hlen
  | wstring str =>
    simp only [encode, List.length_append, length_leBytes] at hlen ⊢
    have hlength := (length_encodeUTF16 (cStr str)).2
    have hout := length_utf16Bytes (encodeUTF16 (cStr str))
    obtain ⟨m, hm, hle⟩ := growth_of_block hblock [4] hsize (by rw [List.sum_singleton]; omega)
    rw [List.sum_singleton] at hle
    rw [room, wideRoom?, hm]
    refine ⟨_, rfl, ?_⟩
    beta_reduce
    by_cases hnil : cStr str = []
    · have hzero : (encodeUTF16 (cStr str)).length = 0 := by
        rw [hnil]
        rfl
      rw [if_pos hnil]
      omega
    · rw [if_neg hnil, wideRoom]
      split <;> omega
  | chunk mc => exact hprefixed hlen
  | vector width count data => exact hprefixed hlen

/-- **The capacities suffice** below 2^31 bytes, if the block size divides 2^31. -/
theorem room_isSome {block : ℕ} (hblock : block ∣ 2 ^ 31) (vs : List Value) {maxBuffer size : ℕ}
    (hsize : size ≤ maxBuffer) (hlen : size + (vs.flatMap Value.encode).length < 2 ^ 31) :
    (room block maxBuffer size vs).isSome := by
  induction vs generalizing maxBuffer size with
  | nil => rfl
  | cons v vs ih =>
    rw [List.flatMap_cons, List.length_append] at hlen
    obtain ⟨m, hm, hle⟩ := v.room_of_block hblock hsize (by omega)
    rw [room, hm, Option.bind_some]
    exact ih hle (by omega)

/-! ### What is read -/

theorem popText_decodes {α : Type} (e : CUException) (assign : List UInt8 → List α)
    (hnil : assign [] = []) {s : List UInt8} (hs : s.length < UQUEUE_NULL_LENGTH) :
    Decodes (2 ^ 32) (Server.popText e assign) (leBytes 4 s.length ++ s) (assign s) := by
  intro rest hrest
  refine (Server.popText_recognizes e assign _ _ _ hrest).2 ⟨_, rfl, ?_⟩
  by_cases hempty : s = []
  · subst hempty
    rw [hnil, List.append_nil]
    exact .empty
  · exact .text hempty hs

theorem popInto_decodes (raw : List UInt8) :
    Decodes (2 ^ 32) (popInto raw.length raw.length 0) raw raw := by
  intro rest hrest
  have hok : popInto raw.length raw.length ([] : List UInt8).length ([] ++ (raw ++ rest)) = _ :=
    popInto_ok le_rfl (by rwa [List.length_nil, Nat.zero_add])
  exact hok

/-- The buffer has room for the bytes behind its content. -/
def HasRoom (mc : CUQueue) (data : List UInt8) : Prop := (mc.growth [data]).isSome

instance (mc : CUQueue) (data : List UInt8) : Decidable (HasRoom mc data) :=
  inferInstanceAs (Decidable (_ = true))

theorem hasRoom_nil (mc : CUQueue) : HasRoom mc [] := by
  have hfits : mc.m_nHeadPos + mc.size ≤ mc.m_nMaxBuffer := mc.fits
  have hcapacity : capacity mc.m_nBlockSize mc.m_nMaxBuffer mc.size 0 = mc.m_nMaxBuffer :=
    if_pos (Nat.zero_le _)
  show (Buffer.growth mc.m_nBlockSize mc.m_nMaxBuffer mc.size [0]).isSome
  rw [growth, hcapacity, if_pos (by omega)]
  rfl

/-- Bytes are put behind the content, where there is room for them. -/
theorem pushInto_eq (mc : CUQueue) (data c : List UInt8) :
    pushInto mc data c = if HasRoom mc data then .ok (mc.content ++ data) c else .fault := by
  have hinserts := pushBytes_inserts mc data
  rw [Inserts, Reaches] at hinserts
  cases hm : mc.growth [data] with
  | none =>
    rw [hm] at hinserts
    change pushBytes data mc = .fault at hinserts
    have hroom : ¬ HasRoom mc data := by simp [HasRoom, hm]
    rw [if_neg hroom, pushInto, hinserts]
  | some m =>
    rw [hm] at hinserts
    obtain ⟨mc', hok, hcontent, -, -⟩ := hinserts
    rw [List.flatten_singleton] at hcontent
    have hroom : HasRoom mc data := by simp [HasRoom, hm]
    rw [if_pos hroom, pushInto, hok]
    exact congrArg (Outcome.ok · c) (hcontent.trans (insertAt_length _ _))

/-- What `operator>>(CUQueue&)` does from the front. -/
theorem popChunk_eq (mc : CUQueue) {data rest : List UInt8} (hdata : data.length < UQUEUE_NULL_LENGTH)
    (hrest : (leBytes 4 data.length ++ data ++ rest).length < 2 ^ 32) :
    popChunk mc (leBytes 4 data.length ++ data ++ rest) =
      if HasRoom mc data then .ok (mc.content ++ data) rest else .fault := by
  have hpos : data.length < 256 ^ 4 := lt_null hdata
  rw [List.append_assoc] at hrest ⊢
  rw [popChunk, Effect.bind_ok (popNumber_decodes hpos _ hrest)]
  by_cases hempty : data = []
  · subst hempty
    rw [if_pos (hasRoom_nil mc), List.append_nil]
    rfl
  · have hne : data.length ≠ 0 := fun h ↦ hempty (List.length_eq_zero_iff.1 h)
    have hle : ¬ (data ++ rest).length < data.length := by
      rw [List.length_append]
      omega
    have hsize : getSize (data ++ rest) = .ok _ _ := rfl
    have hpeek : peek data.length ([] : List UInt8).length ([] ++ (data ++ rest)) = _ := peek_ok
    have hdiscard : discard data.length ([] : List UInt8).length ([] ++ (data ++ rest)) = _ :=
      discard_ok
    simp only [List.nil_append, List.length_nil] at hpeek hdiscard
    rw [if_pos ⟨hdata.ne, hne⟩, Effect.bind_ok hsize, if_neg hle, Effect.bind_ok hpeek]
    by_cases hroom : HasRoom mc data
    · have hpush : pushInto mc data (data ++ rest) = .ok (mc.content ++ data) (data ++ rest) := by
        rw [pushInto_eq, if_pos hroom]
      rw [if_pos hroom, Effect.bind_ok hpush, Effect.bind_ok hdiscard]
      rfl
    · have hpush : pushInto mc data (data ++ rest) = .fault := by
        rw [pushInto_eq, if_neg hroom]
      rw [if_neg hroom, Effect.bind_fault hpush]

theorem popVector_decodes {width count : ℕ} {data : List UInt8} (hwidth : 0 < width)
    (hdata : data.length = count * width) (hlen : data.length < 2 ^ 32) :
    Decodes (2 ^ 32) (popVector width) (leBytes 4 count ++ data) (.vector width count data) := by
  have hcount : count < 256 ^ 4 :=
    (hdata ▸ Nat.le_mul_of_pos_right count hwidth : count ≤ data.length).trans_lt hlen
  refine (popNumber_decodes hcount).bind ?_
  by_cases hzero : count = 0
  · rw [hzero, Nat.zero_mul] at hdata
    obtain rfl := List.length_eq_zero_iff.1 hdata
    rw [if_neg (not_not.2 hzero), hzero]
    exact .pure _
  · rw [if_pos hzero, ← hdata, Nat.mod_eq_of_lt hlen]
    refine ((popInto_decodes data).map (Value.vector width count)).of_eq fun rest ↦ ?_
    have hle : ¬ (data ++ rest).length < data.length := by
      rw [List.length_append]
      omega
    have hsize : getSize (data ++ rest) = .ok _ _ := rfl
    rw [Effect.bind_ok hsize, if_neg hle]

/-! ### What comes back -/

/-- The value comes back in the target. -/
def Faithful : Value → Target → Prop
  | .wstring str, _ => '\x00' ∉ str
  | .chunk data, .chunk mc => mc.content = [] ∧ HasRoom mc data
  | _, _ => True

theorem Value.cStr_eq_iff (str : List Char) : cStr str = str ↔ '\x00' ∉ str := by
  rw [cStr]
  constructor
  · intro h hmem
    rw [← h] at hmem
    simpa using List.mem_takeWhile_imp hmem
  · intro h
    exact List.takeWhile_eq_self_iff.2 fun c hc ↦ decide_eq_true fun heq ↦ h (heq ▸ hc)

/-- **A value comes back** from the front exactly in a target that is faithful to it, and what
follows is left. -/
theorem pop_encode_iff {v : Value} {t : Target} (hv : v.WellFormed) (ht : Matches v t)
    {rest u : List UInt8} (hsize : (v.encode ++ rest).length < 2 ^ 31) :
    t.pop (v.encode ++ rest) = .ok v u ↔ Faithful v t ∧ rest = u := by
  have hsize' : (v.encode ++ rest).length < 2 ^ 32 := by omega
  have hv' : v.encode.length < 2 ^ 31 := by
    rw [List.length_append] at hsize
    omega
  have hnull : 2 ^ 31 < UQUEUE_NULL_LENGTH := by decide
  -- a reader that gives the value back
  have hback (h : Decodes (2 ^ 32) t.pop v.encode v) (hf : Faithful v t) :
      t.pop (v.encode ++ rest) = .ok v u ↔ Faithful v t ∧ rest = u := by
    rw [h rest hsize']
    simp [hf]
  cases v with
  | primitive data =>
    cases t with
    | primitive old =>
      have hlen : data.length = old.length := ht
      refine hback ?_ trivial
      rw [Target.pop, ← hlen]
      exact (popInto_decodes data).map Value.primitive
    | _ => exact ht.elim
  | string str =>
    cases t with
    | string old =>
      rw [Value.encode, List.length_append] at hv'
      have htext := popText_decodes .badAscii id rfl (by omega : str.length < UQUEUE_NULL_LENGTH)
      exact hback (htext.map Value.string) trivial
    | _ => exact ht.elim
  | wstring str =>
    cases t with
    | wstring old =>
      rw [Value.encode, List.length_append] at hv'
      have htext := (popText_decodes .badUnicode (fun bytes ↦ decodeUTF16 (utf16Units bytes)) rfl
        (s := utf16Bytes (encodeUTF16 (Value.cStr str))) (by omega)).map Value.wstring
      rw [utf16Units_utf16Bytes, decodeUTF16_encodeUTF16] at htext
      have hpop : (Target.wstring old).pop ((Value.wstring str).encode ++ rest) =
          .ok (.wstring (Value.cStr str)) rest := htext rest hsize'
      rw [hpop, Faithful, ← Value.cStr_eq_iff]
      simp
    | _ => exact ht.elim
  | chunk data =>
    cases t with
    | chunk mc =>
      rw [Value.encode, List.length_append] at hv'
      have hchunk := popChunk_eq mc (by omega) hsize'
      rw [Faithful, Target.pop]
      by_cases hroom : HasRoom mc data
      · rw [if_pos hroom] at hchunk
        rw [Value.encode, Effect.bind_ok hchunk]
        show Outcome.ok (Value.chunk (mc.content ++ data)) rest = _ ↔ _
        simp [hroom]
      · rw [if_neg hroom] at hchunk
        rw [Value.encode, Effect.bind_fault hchunk]
        simp [hroom]
    | _ => exact ht.elim
  | vector width count data =>
    cases t with
    | vector width' old =>
      obtain rfl : width = width' := ht
      rw [Value.encode, List.length_append] at hv'
      exact hback (popVector_decodes hv.1 hv.2 (by omega)) trivial
    | _ => exact ht.elim

/-- **All values come back** from the front exactly in targets that are faithful to them. -/
theorem popAll_encode_iff {vs : List Value} {ts : List Target} (hvs : ∀ v ∈ vs, v.WellFormed)
    (hts : List.Forall₂ Matches vs ts) (hsize : (vs.flatMap Value.encode).length < 2 ^ 31) :
    popAll ts (vs.flatMap Value.encode) = .ok vs [] ↔ List.Forall₂ Faithful vs ts := by
  induction hts with
  | nil => exact ⟨fun _ ↦ .nil, fun _ ↦ rfl⟩
  | @cons v t vs ts ht _ ih =>
    rw [List.flatMap_cons] at hsize ⊢
    have hrest : (vs.flatMap Value.encode).length < 2 ^ 31 := by
      rw [List.length_append] at hsize
      omega
    have ih := ih (fun w hw ↦ hvs w (List.mem_cons_of_mem v hw)) hrest
    have hpop {u : List UInt8} := pop_encode_iff (u := u) (hvs v List.mem_cons_self) ht hsize
    rw [List.forall₂_cons, ← ih, popAll, Effect.bind_eq_ok]
    constructor
    · rintro ⟨w, u, hw, h⟩
      obtain ⟨ws, u', hws, hu⟩ := Effect.bind_eq_ok.1 h
      cases hu
      obtain ⟨hfaithful, rfl⟩ := hpop.1 hw
      exact ⟨hfaithful, hws⟩
    · rintro ⟨hfaithful, hws⟩
      refine ⟨v, _, hpop.2 ⟨hfaithful, rfl⟩, ?_⟩
      rw [Effect.bind_ok hws]
      rfl

/-- **The stream operators give the values back** exactly if the capacities suffice, which they do
where the block size divides 2^31, no `std::wstring` has a NUL, and every buffer that is read into
is empty and has room. -/
theorem stream_comesBack_iff (maxLen blockSize : UInt32) {vs : List Value} {ts : List Target}
    (hvs : ∀ v ∈ vs, v.WellFormed) (hts : List.Forall₂ Matches vs ts)
    (hsize : (vs.flatMap Value.encode).length < 2 ^ 31) :
    (ComesBack (.new maxLen blockSize) vs ts ↔
      (room (CUQueue.new maxLen blockSize).m_nBlockSize maxLen.toNat 0 vs).isSome ∧
        List.Forall₂ Faithful vs ts) ∧
    ((CUQueue.new maxLen blockSize).m_nBlockSize ∣ 2 ^ 31 →
      (room (CUQueue.new maxLen blockSize).m_nBlockSize maxLen.toNat 0 vs).isSome) := by
  have hzero : (CUQueue.new maxLen blockSize).size = 0 := rfl
  have happended : Appended (.new maxLen blockSize) (vs.flatMap Value.encode)
      (room (CUQueue.new maxLen blockSize).m_nBlockSize maxLen.toNat 0 vs)
      (pushAll vs (.new maxLen blockSize)) :=
    pushAll_appended hvs rfl (by rwa [hzero, Nat.zero_add])
  refine ⟨?_, fun hblock ↦ room_isSome hblock vs (Nat.zero_le _) (by rwa [Nat.zero_add])⟩
  unfold Appended at happended
  rw [← popAll_encode_iff hvs hts hsize, ComesBack]
  cases hroom : room (CUQueue.new maxLen blockSize).m_nBlockSize maxLen.toNat 0 vs with
  | none =>
    rw [hroom] at happended
    change pushAll vs _ = .fault at happended
    rw [happended]
    simp
  | some m =>
    rw [hroom] at happended
    obtain ⟨q, hok, hcontent, -⟩ := happended
    have hcontent : q.content = vs.flatMap Value.encode := hcontent
    rw [hok, ← hcontent]
    simp

/-- Four values come back in targets that hold something else, but for the buffer. -/
theorem four_values_comesBack :
    ComesBack (.new 16 4096)
      [.string [104, 105], .wstring ['é'], .chunk [7], .vector 4 1 [1, 0, 0, 0]]
      [.string [0], .wstring ['a'], .chunk (.new 16 4096), .vector 4 [9, 9, 9, 9]] := by
  refine (stream_comesBack_iff 16 4096 ?_ ?_ ?_).1.2 ⟨?_, ?_⟩
  · rintro v (_ | ⟨_, _ | ⟨_, _ | ⟨_, _ | ⟨_, _ | _⟩⟩⟩⟩)
    exacts [trivial, trivial, trivial, ⟨by decide, rfl⟩]
  · exact .cons trivial (.cons trivial (.cons trivial (.cons rfl .nil)))
  · decide
  · decide
  · have hnul : '\x00' ∉ ['é'] := by decide
    exact .cons trivial (.cons hnul (.cons ⟨rfl, by decide⟩ (.cons trivial .nil)))

/-- A buffer that holds a byte. -/
def used : CUQueue where
  content := [1]
  m_nMaxBuffer := 16
  m_nHeadPos := 0
  m_nBlockSize := 4096
  fits := by decide
  max_lt := by decide

/-- What stands behind a NUL is lost, and a buffer keeps what it has held. -/
theorem stream_not_comesBack :
    ¬ ComesBack (.new 4096 4096) [.wstring ['a', '\x00', 'b']] [.wstring []] ∧
      ¬ ComesBack (.new 4096 4096) [.chunk [2]] [.chunk used] := by
  constructor
  · rintro ⟨q, hq, h⟩
    cases hq
    revert h
    decide +kernel
  · rintro ⟨q, hq, h⟩
    cases hq
    revert h
    decide +kernel

end SocketPro.Buffer
