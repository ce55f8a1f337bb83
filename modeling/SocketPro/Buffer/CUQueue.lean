import SocketPro.Foundation.Bytes
import SocketPro.Foundation.Effect
import Mathlib.Data.List.Flatten

/-!
# The memory buffer and `Insert`

`CUQueue` of `membuffer.h` as far as inserting bytes goes: the content, where it starts in the
allocated memory, how much memory is allocated and by how much it grows. What lies in the memory
outside the content is never read by the modelled functions and is left out. Allocations succeed.

`insertBytes` follows `CUQueue::Insert(const unsigned char*, len, position)` branch by branch. Its
growth rule adds to `m_nMaxBuffer` in 32 bits, and `m_nMaxBuffer` is not compared with what is
needed afterwards: where the sum wraps, the bytes are copied past the new allocation, which is the
`fault` of the model.

**What a sequence of inserts does.** Whether a piece fits depends on the sizes alone, so `growth`
computes the capacity after a list of inserts, or that one of them does not fit. `Reaches` says
where a program that inserts pieces gets, `Inserts` that it inserts them one after the other; both
compose. -/

namespace SocketPro.Buffer

open Bytes Machine

/-- The exceptions the codec throws. -/
inductive CUException
  | remainingData
  | badAscii
  | badUnicode
  | badUtf16
  | deserialization
  | serialization
  | badChunk
  | badArray
deriving DecidableEq, Repr

/-- `what()`. -/
def CUException.message : CUException → String
  | remainingData => "Remaining data in size smaller than expected size"
  | badAscii => "Bad data for loading ASCII string"
  | badUnicode => "Bad data for loading UNICODE string"
  | badUtf16 => "Bad data for loading UTF16 string"
  | deserialization => "Unsupported data type for deserialization"
  | serialization => "Unsupported data type for serialization"
  | badChunk => "Bad data for loading a memory chunk"
  | badArray => "Bad data for loading array of data"

/-- A memory buffer. The content starts at `m_nHeadPos` of `m_nMaxBuffer` allocated bytes. -/
structure CUQueue where
  content : List UInt8
  m_nMaxBuffer : ℕ
  m_nHeadPos : ℕ
  m_nBlockSize : ℕ
  /-- The content lies within the allocation. -/
  fits : m_nHeadPos + content.length ≤ m_nMaxBuffer
  /-- The capacity is an `unsigned int`. -/
  max_lt : m_nMaxBuffer < 2 ^ 32
deriving DecidableEq

namespace CUQueue

/-- `GetSize()`. -/
def size (q : CUQueue) : ℕ := q.content.length

end CUQueue

/-- The `m_nMaxBuffer` an insert of `len` bytes computes when the memory does not suffice. -/
def grow (blockSize maxBuffer size len : ℕ) : ℕ :=
  if 0xf0000000 ≤ len + size then 0xffffffff
  else (maxBuffer + blockSize * (1 + (len + size) / blockSize)) % 2 ^ 32

theorem grow_lt (blockSize maxBuffer size len : ℕ) : grow blockSize maxBuffer size len < 2 ^ 32 := by
  unfold grow
  split
  · decide
  · exact Nat.mod_lt _ (by decide)

/-- The `m_nMaxBuffer` after an insert of `len` bytes. -/
def capacity (blockSize maxBuffer size len : ℕ) : ℕ :=
  if len ≤ maxBuffer - size then maxBuffer else grow blockSize maxBuffer size len

/-- `CUQueue::Insert(const unsigned char*, unsigned int, unsigned int)`. -/
def insertBytes (buffer : List UInt8) (position : ℕ) : Effect CUException CUQueue Unit := fun q ↦
  if buffer.length = 0 then .ok () q
  else if h : position = 0 ∧ buffer.length ≤ q.m_nHeadPos then
    .ok () { q with
      content := buffer ++ q.content
      m_nHeadPos := q.m_nHeadPos - buffer.length
      fits := by
        have := q.fits
        rw [List.length_append]
        omega }
  else if h : buffer.length ≤ q.m_nMaxBuffer - q.m_nHeadPos - q.size ∧ q.size ≤ position then
    .ok () { q with
      content := q.content ++ buffer
      fits := by
        have := q.fits
        rw [List.length_append]
        unfold CUQueue.size at h
        omega }
  else if h : buffer.length ≤ q.m_nMaxBuffer - q.size then
    -- `SetHeadPosition()` has moved the content to the beginning of the memory.
    .ok () { q with
      content := insertAt (min position q.size) buffer q.content
      m_nHeadPos := 0
      fits := by
        have := q.fits
        rw [length_insertAt]
        unfold CUQueue.size at h
        omega }
  else if h : q.size + buffer.length ≤
      grow q.m_nBlockSize q.m_nMaxBuffer q.size buffer.length then
    .ok () { q with
      content := insertAt (min position q.size) buffer q.content
      m_nMaxBuffer := grow q.m_nBlockSize q.m_nMaxBuffer q.size buffer.length
      m_nHeadPos := 0
      fits := by
        rw [length_insertAt, Nat.zero_add]
        exact h
      max_lt := grow_lt _ _ _ _ }
  else .fault

/-- `CUQueue::Push(const unsigned char*, len)`: `Insert` at `UQUEUE_END_POSTION`. -/
def pushBytes (buffer : List UInt8) : Effect CUException CUQueue Unit :=
  insertBytes buffer 0xffffffff

/-! ### What one insert does -/

/-- The outcome of inserting `xs` before `p` when the capacity becomes `m`. -/
def Inserted (q : CUQueue) (p : ℕ) (xs : List UInt8) (m : ℕ)
    (o : Outcome CUException CUQueue Unit) : Prop :=
  ∃ q', o = .ok () q' ∧ q'.content = insertAt p xs q.content ∧ q'.m_nMaxBuffer = m ∧
    q'.m_nBlockSize = q.m_nBlockSize

theorem insertBytes_inserted {q : CUQueue} {buffer : List UInt8} {position : ℕ}
    (h : q.size + buffer.length ≤ capacity q.m_nBlockSize q.m_nMaxBuffer q.size buffer.length) :
    Inserted q (min position q.size) buffer
      (capacity q.m_nBlockSize q.m_nMaxBuffer q.size buffer.length)
      (insertBytes buffer position q) := by
  have hfits : q.m_nHeadPos + q.size ≤ q.m_nMaxBuffer := q.fits
  unfold insertBytes
  split_ifs with hlen hhead htail hroom hgrow
  · -- Nothing to insert.
    have hnil : buffer = [] := List.length_eq_zero_iff.1 hlen
    subst hnil
    exact ⟨q, rfl, (insertAt_nil _ _).symm, (if_pos (Nat.zero_le _)).symm, rfl⟩
  · -- The bytes go into the gap before the content.
    obtain ⟨rfl, hle⟩ := hhead
    have hcap : buffer.length ≤ q.m_nMaxBuffer - q.size := by omega
    refine ⟨_, rfl, ?_, (if_pos hcap).symm, rfl⟩
    rw [Nat.zero_min]
    rfl
  · -- The bytes are appended.
    have hcap : buffer.length ≤ q.m_nMaxBuffer - q.size := by omega
    refine ⟨_, rfl, ?_, (if_pos hcap).symm, rfl⟩
    rw [Nat.min_eq_right htail.2]
    exact (insertAt_length buffer q.content).symm
  · exact ⟨_, rfl, rfl, (if_pos hroom).symm, rfl⟩
  · exact ⟨_, rfl, rfl, (if_neg hroom).symm, rfl⟩
  · rw [capacity, if_neg hroom] at h
    exact absurd h hgrow

theorem insertBytes_fault {q : CUQueue} {buffer : List UInt8} {position : ℕ}
    (h : ¬ q.size + buffer.length ≤
      capacity q.m_nBlockSize q.m_nMaxBuffer q.size buffer.length) :
    insertBytes buffer position q = .fault := by
  have hfits : q.m_nHeadPos + q.size ≤ q.m_nMaxBuffer := q.fits
  have hcap : ¬ buffer.length ≤ q.m_nMaxBuffer - q.size := by
    intro hle
    rw [capacity, if_pos hle] at h
    omega
  rw [capacity, if_neg hcap] at h
  unfold insertBytes
  split_ifs with hlen hhead htail <;> first | rfl | omega

/-! ### Sequences of inserts -/

/-- The capacity after inserts of the given sizes, or `none` if one of them does not fit the memory
it has allocated. -/
def growth (blockSize : ℕ) : ℕ → ℕ → List ℕ → Option ℕ
  | maxBuffer, _, [] => some maxBuffer
  | maxBuffer, size, len :: lens =>
    if size + len ≤ capacity blockSize maxBuffer size len then
      growth blockSize (capacity blockSize maxBuffer size len) (size + len) lens
    else none

theorem growth_append (blockSize maxBuffer size : ℕ) (lens lens' : List ℕ) :
    growth blockSize maxBuffer size (lens ++ lens') =
      (growth blockSize maxBuffer size lens).bind fun m ↦
        growth blockSize m (size + lens.sum) lens' := by
  induction lens generalizing maxBuffer size with
  | nil => rfl
  | cons len lens ih =>
    rw [List.cons_append, growth, growth, List.sum_cons, ← Nat.add_assoc]
    split
    · exact ih _ _
    · rfl

/-- `growth` for the sizes of byte strings, from the state of a buffer. -/
def CUQueue.growth (q : CUQueue) (ps : List (List UInt8)) : Option ℕ :=
  Buffer.growth q.m_nBlockSize q.m_nMaxBuffer q.size (ps.map List.length)

/-- From `q`, after inserts of the given pieces somewhere, the content is `c`; unless one of them
does not fit. -/
def Reaches (q : CUQueue) (ps : List (List UInt8)) (c : List UInt8)
    (o : Outcome CUException CUQueue Unit) : Prop :=
  match q.growth ps with
  | some m => ∃ q', o = .ok () q' ∧ q'.content = c ∧ q'.m_nMaxBuffer = m ∧
      q'.m_nBlockSize = q.m_nBlockSize
  | none => o = .fault

/-- From `q`, the outcome is that of inserting the pieces one after the other from `p` on. -/
abbrev Inserts (q : CUQueue) (p : ℕ) (ps : List (List UInt8))
    (o : Outcome CUException CUQueue Unit) : Prop :=
  Reaches q ps (insertAt p ps.flatten q.content) o

theorem Inserts.nil {q : CUQueue} {p : ℕ} :
    Inserts q p [] ((pure () : Effect CUException CUQueue Unit) q) := by
  refine ⟨q, rfl, ?_, rfl, rfl⟩
  exact (insertAt_nil _ _).symm

theorem Inserts.bytes {q : CUQueue} {position p : ℕ} {buffer : List UInt8}
    (hp : min position q.size = p) : Inserts q p [buffer] (insertBytes buffer position q) := by
  subst hp
  by_cases h : q.size + buffer.length ≤
      capacity q.m_nBlockSize q.m_nMaxBuffer q.size buffer.length
  · have hg : q.growth [buffer] = some (capacity q.m_nBlockSize q.m_nMaxBuffer q.size
        buffer.length) := if_pos h
    rw [Inserts, Reaches, hg, List.flatten_singleton]
    exact insertBytes_inserted h
  · have hg : q.growth [buffer] = none := if_neg h
    rw [Inserts, Reaches, hg]
    exact insertBytes_fault h

/-- **Sequencing.** What a second program does from wherever the first one gets. -/
theorem Reaches.append {q : CUQueue} {ps ps' : List (List UInt8)} {c c' : List UInt8}
    {x : Effect CUException CUQueue Unit} {f : Unit → Effect CUException CUQueue Unit}
    (hc : c.length = q.size + ps.flatten.length) (hx : Reaches q ps c (x q))
    (hf : ∀ q' : CUQueue, q'.content = c → Reaches q' ps' c' (f () q')) :
    Reaches q (ps ++ ps') c' ((x >>= f) q) := by
  have hgrowth : q.growth (ps ++ ps') = (q.growth ps).bind fun m ↦
      growth q.m_nBlockSize m (q.size + ps.flatten.length) (ps'.map List.length) := by
    rw [CUQueue.growth, List.map_append, growth_append, List.length_flatten]
    rfl
  unfold Reaches at hx ⊢
  rw [hgrowth]
  cases hm : q.growth ps with
  | none =>
    rw [hm] at hx
    exact Effect.bind_fault hx
  | some m =>
    rw [hm] at hx
    obtain ⟨q', hq', hcontent, hmax, hblock⟩ := hx
    have hsize : q'.size = q.size + ps.flatten.length := by rw [CUQueue.size, hcontent, hc]
    have hf' := hf q' hcontent
    rw [Reaches, CUQueue.growth, hmax, hblock, hsize] at hf'
    rw [Option.bind_some, Effect.bind_ok hq']
    exact hf'

/-- Pieces inserted by a first program, and further pieces right behind them by a second one. -/
theorem Inserts.append {q : CUQueue} {p : ℕ} {ps ps' : List (List UInt8)}
    {x : Effect CUException CUQueue Unit} {f : Unit → Effect CUException CUQueue Unit}
    (hp : p ≤ q.size) (hx : Inserts q p ps (x q))
    (hf : ∀ q' : CUQueue, q'.content = insertAt p ps.flatten q.content →
      Inserts q' (p + ps.flatten.length) ps' (f () q')) :
    Inserts q p (ps ++ ps') ((x >>= f) q) := by
  refine Reaches.append (length_insertAt _ _ _) hx fun q' hq' ↦ ?_
  have hf' := hf q' hq'
  rwa [Inserts, hq', insertAt_insertAt hp, ← List.flatten_append] at hf'

/-- A program behind one that inserts is at fault if it is at fault wherever the first one gets. -/
theorem Reaches.bind_fault {q : CUQueue} {ps : List (List UInt8)} {c : List UInt8}
    {x : Effect CUException CUQueue Unit} {f : Unit → Effect CUException CUQueue Unit}
    (hx : Reaches q ps c (x q)) (hf : ∀ q' : CUQueue, q'.content = c → f () q' = .fault) :
    (x >>= f) q = .fault := by
  unfold Reaches at hx
  cases hm : q.growth ps with
  | none =>
    rw [hm] at hx
    exact Effect.bind_fault hx
  | some m =>
    rw [hm] at hx
    obtain ⟨q', hq', hcontent, -⟩ := hx
    rw [Effect.bind_ok hq']
    exact hf q' hcontent

/-- A program that inserts pieces returns exactly when all of them fit. -/
theorem Reaches.ok_iff {q : CUQueue} {ps : List (List UInt8)} {c d : List UInt8}
    {o : Outcome CUException CUQueue Unit} (h : Reaches q ps c o) :
    (∃ q', o = .ok () q' ∧ q'.content = d) ↔ (q.growth ps).isSome ∧ c = d := by
  unfold Reaches at h
  cases hm : q.growth ps with
  | none =>
    rw [hm] at h
    constructor
    · rintro ⟨q', hq', -⟩
      rw [h] at hq'
      cases hq'
    · rintro ⟨hsome, -⟩
      cases hsome
  | some m =>
    rw [hm] at h
    obtain ⟨q', hq', hcontent, -⟩ := h
    constructor
    · rintro ⟨q'', hq'', hd⟩
      rw [hq'] at hq''
      cases hq''
      exact ⟨rfl, hcontent.symm.trans hd⟩
    · rintro ⟨-, rfl⟩
      exact ⟨q', hq', hcontent⟩

/-! ### Capacities that do not wrap -/

/-- A block size that divides 2^31 is enough for what the buffer has to hold, whatever it has been
allocated with. -/
theorem le_grow_of_block {block maxBuffer size len : ℕ} (hblock : block ∣ 2 ^ 31)
    (hmax : maxBuffer < size + len) (hlen : size + len < 2 ^ 31) :
    size + len ≤ grow block maxBuffer size len := by
  have hpos : 0 < block := Nat.pos_of_dvd_of_pos hblock (by decide)
  obtain ⟨k, hk⟩ := hblock
  have hdiv : (len + size) / block < k := Nat.div_lt_of_lt_mul (by omega)
  have hle : block * (1 + (len + size) / block) ≤ 2 ^ 31 := by
    rw [hk]
    exact Nat.mul_le_mul_left block (by omega)
  have hup : len + size < block * (1 + (len + size) / block) := by
    rw [Nat.add_comm 1]
    exact Nat.lt_mul_div_succ _ hpos
  rw [grow, if_neg (by omega), Nat.mod_eq_of_lt (by omega)]
  omega

theorem growth_of_block {block : ℕ} (hblock : block ∣ 2 ^ 31) (lens : List ℕ) {maxBuffer size : ℕ}
    (hsize : size ≤ maxBuffer) (hsum : size + lens.sum < 2 ^ 31) :
    ∃ m, growth block maxBuffer size lens = some m ∧ size + lens.sum ≤ m := by
  induction lens generalizing maxBuffer size with
  | nil => exact ⟨maxBuffer, rfl, hsize⟩
  | cons len lens ih =>
    rw [List.sum_cons] at hsum
    have hstep : size + len ≤ capacity block maxBuffer size len := by
      rw [capacity]
      split
      · omega
      · exact le_grow_of_block hblock (by omega) (by omega)
    rw [growth, if_pos hstep, List.sum_cons, ← Nat.add_assoc]
    exact ih hstep (by omega)

end SocketPro.Buffer
