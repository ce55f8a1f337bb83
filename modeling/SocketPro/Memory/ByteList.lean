import SocketPro.Memory.CUQueue

/-!
# The buffer is a byte list

`ByteList` is what a `CUQueue` is for: a list of bytes, together with the bytes in front of it that
`SetHeadPosition(headPos)` can take back. `ByteList.perform` says what each operation does to it.
How many of the bytes in front survive an operation depends on the memory, and is left open: `Spec`
allows any prefix of them to remain.

**Correspondence.** `Holds q t` says that the block of `q` begins with the bytes of `t`, first those
in front, up to the head position, and then the content. Each function has one lemma: from a buffer
that holds a list it yields one that holds the resulting list (`…_holds`).

**Where it fails.** The new capacity in `Insert` and the sum of length and position in `Pop` into a
buffer are 32-bit numbers. Where the first one wraps, the bytes do not fit the block that is
allocated; where the second one wraps to a number that is not above the size, bytes outside of the
block are read. `Guarded` says that neither happens.
-/

namespace SocketPro.Memory

open Block Bytes Machine

/-- A byte list, and the bytes in front of it that can be taken back. -/
structure ByteList where
  gone : List UInt8
  content : List UInt8
deriving DecidableEq, Repr

namespace ByteList

/-- `n` bytes go from position `p` on; they can be taken back if they were the first ones. -/
def remove (t : ByteList) (n p : ℕ) : ByteList where
  gone := if p = 0 then t.gone ++ t.content.take n else t.gone
  content := removeAt p n t.content

/-- The result of an operation, and the list if no byte in front of the content is lost. -/
def perform (t : ByteList) : Op → Result × ByteList
  | .push buffer => (.done, { t with content := t.content ++ buffer })
  | .insert buffer position =>
    (.done, { t with content := insertAt (min position.toNat t.content.length) buffer t.content })
  | .pop len position =>
    let n := min len.toNat (t.content.length - position.toNat)
    (.count n, t.remove n position.toNat)
  | .popInto len position =>
    if t.content.length < len.toNat + position.toNat then (.thrown .remainingData, t)
    else (.bytes ((slice position.toNat len.toNat t.content).map some),
      t.remove len.toNat position.toNat)
  | .replace pos len buffer =>
    (.done, {
      gone := if pos.toNat + buffer.length = 0 then t.gone ++ t.content.take len.toNat else t.gone
      content := t.content.take pos.toNat ++ buffer ++ t.content.drop (pos.toNat + len.toNat) })
  | .setHeadPosition => (.done, t)
  | .setHeadPositionTo headPos =>
    (.done, ⟨t.gone.take headPos.toNat, t.gone.drop headPos.toNat ++ t.content⟩)
  | .setSize size _ => (.done, { t with content := t.content.take size.toNat })
  | .reallocBuffer _ => (.done, t)
  | .setNull => (.done, t)

/-- What an operation may return and leave. -/
structure Spec (t : ByteList) (op : Op) (r : Result) (t' : ByteList) : Prop where
  result : r = (t.perform op).1
  content : t'.content = (t.perform op).2.content
  gone : t'.gone <+: (t.perform op).2.gone
  thrown : ∀ e, r = .thrown e → t' = t

end ByteList

namespace CUQueue

/-- The block of `q` begins with the bytes of `t`, the content from the head position on. -/
structure Holds (q : CUQueue) (t : ByteList) : Prop where
  block : q.m_pBuffer.length = q.m_nMaxBuffer
  size : q.m_nSize = t.content.length
  head : q.m_nHeadPos = t.gone.length
  fits : q.m_nHeadPos + q.m_nSize ≤ q.m_nMaxBuffer
  cells : q.m_pBuffer.take (q.m_nHeadPos + q.m_nSize) = (t.gone ++ t.content).map some
  blockSize : 0 < q.m_nBlockSize ∧ q.m_nBlockSize < 2 ^ 32
  max_lt : q.m_nMaxBuffer < 2 ^ 32
  empty : q.m_nSize = 0 → q.m_nHeadPos = 0

variable {q : CUQueue} {t : ByteList} {gone content buffer : List UInt8} {n p : ℕ}

theorem new_holds (maxLen blockSize : UInt32) : (new maxLen blockSize).Holds ⟨[], []⟩ where
  block := length_alloc
  size := rfl
  head := rfl
  fits := Nat.zero_le _
  cells := List.take_zero
  blockSize := by
    show 0 < (if blockSize = 0 then _ else _) ∧ (if blockSize = 0 then _ else _) < 2 ^ 32
    split_ifs with h
    · decide
    · exact ⟨Nat.pos_of_ne_zero fun h0 ↦ h (UInt32.toNat_inj.1 h0), blockSize.toNat_lt⟩
  max_lt := maxLen.toNat_lt
  empty _ := rfl

namespace Holds

/-! ### Ranges of the block -/

/-- A range of the bytes that the block holds. -/
theorem slice_eq (h : q.Holds t) (hn : p + n ≤ q.m_nHeadPos + q.m_nSize) :
    slice p n q.m_pBuffer = (slice p n (t.gone ++ t.content)).map some := by
  rw [← slice_take hn, h.cells, slice, slice, List.map_take, List.map_drop]

/-- The bytes in front and some of the content. -/
theorem take_eq (h : q.Holds t) (hn : n ≤ q.m_nSize) :
    q.m_pBuffer.take (q.m_nHeadPos + n) = (t.gone ++ t.content.take n).map some := by
  rw [take_eq_slice, h.slice_eq (by omega), slice, List.drop_zero, h.head,
    List.take_length_add_append]

/-- A range of the content. -/
theorem slice_content (h : q.Holds t) (hn : p + n ≤ q.m_nSize) :
    slice (q.m_nHeadPos + p) n q.m_pBuffer = (slice p n t.content).map some := by
  rw [h.slice_eq (by omega), slice, h.head, List.drop_length_add_append, ← slice]

/-- The content is what `GetBuffer()` and `GetSize()` give. -/
theorem content_eq (h : q.Holds t) : q.content = t.content.map some := by
  have hs := h.slice_content (p := 0) (n := q.m_nSize) (by omega)
  rw [Nat.add_zero] at hs
  rw [CUQueue.content, hs, h.size, slice_all]

end Holds

/-! ### Copies inside of the block -/

theorem setHeadPosition_holds (h : q.Holds t) :
    ∃ q', q.setHeadPosition = some q' ∧ q'.Holds ⟨[], t.content⟩ ∧
      q'.m_nMaxBuffer = q.m_nMaxBuffer ∧ q'.m_nBlockSize = q.m_nBlockSize := by
  have hblock := h.block
  have hfits := h.fits
  unfold setHeadPosition
  by_cases hhead : q.m_nHeadPos = 0
  · have hnil : t.gone = [] := List.length_eq_zero_iff.1 (h.head.symm.trans hhead)
    rw [if_pos hhead, ← hnil]
    exact ⟨q, rfl, h, rfl, rfl⟩
  · have hread : q.m_nHeadPos + q.m_nSize ≤ q.m_pBuffer.length := by omega
    have hwrite : 0 + q.m_nSize ≤ q.m_pBuffer.length := by omega
    obtain ⟨m, hm, hlen, htake⟩ := copyAny_end hread hwrite
    rw [if_neg hhead, hm, Option.bind_eq_bind, Option.bind_some]
    refine ⟨_, rfl, ?_, rfl, rfl⟩
    constructor
    · exact hlen.trans hblock
    · exact h.size
    · rfl
    · show 0 + q.m_nSize ≤ q.m_nMaxBuffer
      omega
    · show m.take (0 + q.m_nSize) = _
      rw [htake]
      exact h.content_eq
    · exact h.blockSize
    · exact h.max_lt
    · exact fun _ ↦ rfl

/-- `Insert` finds room, or the capacity it computes does not wrap. -/
def NoWrap (q : CUQueue) (len : ℕ) : Prop :=
  len ≤ q.m_nMaxBuffer - q.m_nSize ∨
    q.m_nMaxBuffer + q.m_nBlockSize * (1 + (len + q.m_nSize) / q.m_nBlockSize) < 2 ^ 32

instance {q : CUQueue} {len : ℕ} : Decidable (q.NoWrap len) := by
  unfold NoWrap
  infer_instance

/-- A capacity that does not wrap is large enough. -/
theorem le_grow {blockSize maxBuffer size len : ℕ} (hblock : 0 < blockSize)
    (hlt : len + size < 0xf0000000)
    (h : maxBuffer + blockSize * (1 + (len + size) / blockSize) < 2 ^ 32) :
    size + len ≤ Buffer.grow blockSize maxBuffer size len := by
  have hdiv : len + size < blockSize * ((len + size) / blockSize + 1) := by
    rw [Nat.mul_comm]
    exact Nat.lt_mul_of_div_lt (Nat.lt_succ_self _) hblock
  rw [Buffer.grow, if_neg (by omega), Nat.mod_eq_of_lt h, Nat.add_comm 1]
  omega

theorem insertShift_holds (h : q.Holds ⟨[], content⟩) (hp : p ≤ q.m_nSize)
    (hlt : buffer.length + q.m_nSize < 0xf0000000) (hroom : q.NoWrap buffer.length) :
    ∃ q', q.insertShift (buffer.map some) p = some q' ∧
      q'.Holds ⟨[], insertAt p buffer content⟩ := by
  have hblock := h.block
  have hfits := h.fits
  have hhead : q.m_nHeadPos = 0 := h.head
  have hlen : (buffer.map some).length = buffer.length := List.length_map _
  have hsize : q.m_nSize = content.length := h.size
  have htake : q.m_pBuffer.take p = (content.take p).map some := by
    have ht := h.take_eq hp
    rwa [hhead, Nat.zero_add] at ht
  have htail : slice p (q.m_nSize - p) q.m_pBuffer = (content.drop p).map some := by
    have ht := h.slice_content (p := p) (n := q.m_nSize - p) (by omega)
    rw [hhead, Nat.zero_add] at ht
    have hall : slice p (q.m_nSize - p) content = content.drop p := by
      rw [slice, List.take_of_length_le]
      rw [List.length_drop, hsize]
    rw [ht, hall]
  have hinsert : (insertAt p buffer content).map some =
      (content.take p).map some ++ buffer.map some ++ (content.drop p).map some := by
    rw [insertAt, List.map_append, List.map_append]
  unfold insertShift
  dsimp only
  rw [hlen]
  by_cases hshift : buffer.length ≤ q.m_nMaxBuffer - q.m_nSize
  · -- The bytes behind the position move on.
    obtain ⟨m, m', hm, hm', hlen', htake'⟩ := open_gap (b := q.m_pBuffer) (w := buffer.map some)
      (p := p) (k := q.m_nSize) hp (by omega)
    rw [hlen] at hm htake'
    rw [if_pos hshift, hm, Option.bind_eq_bind, Option.bind_some, hm', Option.bind_some]
    refine ⟨_, rfl, ?_⟩
    constructor
    · exact hlen'.trans hblock
    · show q.m_nSize + buffer.length = (insertAt p buffer content).length
      rw [length_insertAt, hsize]
    · exact hhead
    · show q.m_nHeadPos + (q.m_nSize + buffer.length) ≤ q.m_nMaxBuffer
      omega
    · show m'.take (q.m_nHeadPos + (q.m_nSize + buffer.length)) =
        (insertAt p buffer content).map some
      rw [hhead, Nat.zero_add, htake', htake, htail, hinsert]
    · exact h.blockSize
    · exact h.max_lt
    · exact fun _ ↦ hhead
  · -- The content is copied to a larger block.
    have hgrow := le_grow h.blockSize.1 hlt (hroom.resolve_left hshift)
    have hfits₀ : 0 + p ≤ (alloc (Buffer.grow q.m_nBlockSize q.m_nMaxBuffer q.m_nSize
        buffer.length) : List (Option UInt8)).length := by
      rw [length_alloc]
      omega
    obtain ⟨m₀, hm₀, hlen₀, htake₀⟩ := copyAny_end (b := q.m_pBuffer) (p := 0) (by omega) hfits₀
    rw [length_alloc] at hlen₀
    have hfits₁ : p + (buffer.map some).length ≤ m₀.length := by omega
    obtain ⟨m₁, hm₁, hlen₁, htake₁⟩ := write_end hfits₁
    have hfits₂ : p + buffer.length + (q.m_nSize - p) ≤ m₁.length := by omega
    obtain ⟨m₂, hm₂, hlen₂, htake₂⟩ := copyAny_end (b := q.m_pBuffer) (p := p) (by omega) hfits₂
    rw [if_neg hshift, hm₀, Option.bind_eq_bind, Option.bind_some, hm₁, Option.bind_some, hm₂,
      Option.bind_some]
    have hsum : q.m_nSize + buffer.length = p + buffer.length + (q.m_nSize - p) := by omega
    refine ⟨_, rfl, ?_⟩
    constructor
    · show m₂.length = _
      rw [hlen₂, hlen₁, hlen₀]
    · show q.m_nSize + buffer.length = (insertAt p buffer content).length
      rw [length_insertAt, hsize]
    · exact hhead
    · show q.m_nHeadPos + (q.m_nSize + buffer.length) ≤
        Buffer.grow q.m_nBlockSize q.m_nMaxBuffer q.m_nSize buffer.length
      omega
    · show m₂.take (q.m_nHeadPos + (q.m_nSize + buffer.length)) =
        (insertAt p buffer content).map some
      rw [hlen] at htake₁
      rw [Nat.zero_add, List.take_zero, List.nil_append, ← take_eq_slice, htake] at htake₀
      rw [hhead, Nat.zero_add, hsum, htake₂, htake₁, htake₀, htail, hinsert]
    · exact h.blockSize
    · exact Buffer.grow_lt _ _ _ _
    · exact fun _ ↦ hhead

/-! ### The functions -/

/-- `insert` puts the bytes at the position, or at the end. -/
theorem insert_holds (h : q.Holds t) (position : ℕ) (hlt : buffer.length + q.m_nSize < 0xf0000000)
    (hroom : q.NoWrap buffer.length) :
    ∃ q' gone', q.insert buffer position = some q' ∧ gone' <+: t.gone ∧
      q'.Holds ⟨gone', insertAt (min position t.content.length) buffer t.content⟩ := by
  have hblock := h.block
  have hfits := h.fits
  have hsize := h.size
  have hhead := h.head
  have hlen : (buffer.map some).length = buffer.length := List.length_map _
  have hfull : q.m_pBuffer.take (q.m_nHeadPos + q.m_nSize) =
      t.gone.map some ++ t.content.map some := h.cells.trans List.map_append
  unfold insert
  dsimp only
  by_cases hnone : buffer.length = 0
  · have hnil : buffer = [] := List.length_eq_zero_iff.1 hnone
    rw [if_pos hnone, hnil, insertAt_nil]
    exact ⟨q, t.gone, rfl, List.prefix_rfl, h⟩
  rw [if_neg hnone]
  by_cases hfront : position = 0 ∧ buffer.length ≤ q.m_nHeadPos
  · -- The bytes go to the end of the room in front of the content.
    obtain ⟨rfl, hle⟩ := hfront
    have hwrite : q.m_nHeadPos - buffer.length + (buffer.map some).length + q.m_nSize ≤
        q.m_pBuffer.length := by omega
    obtain ⟨m, hm, hmlen, hslice⟩ := write_before hwrite
    have hmove : m = overwrite (q.m_nHeadPos - buffer.length) (buffer.map some) q.m_pBuffer :=
      Option.some.inj (hm.symm.trans (write_eq_some (by omega)))
    rw [if_pos ⟨rfl, hle⟩, hm, Option.bind_eq_bind, Option.bind_some]
    refine ⟨_, t.gone.take (q.m_nHeadPos - buffer.length), rfl, List.take_prefix _ _, ?_⟩
    constructor
    · exact hmlen.trans hblock
    · show q.m_nSize + buffer.length = _
      rw [length_insertAt, hsize]
    · show q.m_nHeadPos - buffer.length = _
      rw [List.length_take]
      omega
    · show q.m_nHeadPos - buffer.length + (q.m_nSize + buffer.length) ≤ q.m_nMaxBuffer
      omega
    · have hbefore : m.take (q.m_nHeadPos - buffer.length) =
          (t.gone.take (q.m_nHeadPos - buffer.length)).map some := by
        rw [hmove, take_overwrite_of_le (Nat.le_refl _) (by omega)]
        have htake := congrArg (List.take (q.m_nHeadPos - buffer.length)) hfull
        rwa [List.take_take, Nat.min_eq_left (by omega), List.take_append_of_le_length
          (by rw [List.length_map]; omega), ← List.map_take] at htake
      have hcontent : slice q.m_nHeadPos q.m_nSize q.m_pBuffer = t.content.map some := h.content_eq
      rw [hlen, Nat.sub_add_cancel hle, hcontent] at hslice
      show m.take (q.m_nHeadPos - buffer.length + (q.m_nSize + buffer.length)) = _
      rw [take_eq_slice, slice_add, Nat.zero_add, ← take_eq_slice, hbefore, Nat.add_comm q.m_nSize,
        hslice, Nat.zero_min, insertAt, List.take_zero, List.nil_append, List.drop_zero,
        List.map_append, List.map_append]
    · exact h.blockSize
    · exact h.max_lt
    · intro h0
      exact absurd h0 (by show q.m_nSize + buffer.length ≠ 0; omega)
  rw [if_neg hfront]
  by_cases hback : buffer.length ≤ q.m_nMaxBuffer - q.m_nHeadPos - q.m_nSize ∧ q.m_nSize ≤ position
  · -- The bytes go behind the content.
    have hwrite : q.m_nHeadPos + q.m_nSize + (buffer.map some).length ≤ q.m_pBuffer.length := by
      omega
    obtain ⟨m, hm, hmlen, htake⟩ := write_end hwrite
    rw [if_pos hback, hm, Option.bind_eq_bind, Option.bind_some]
    refine ⟨_, t.gone, rfl, List.prefix_rfl, ?_⟩
    rw [Nat.min_eq_right (hsize ▸ hback.2), insertAt_length]
    constructor
    · exact hmlen.trans hblock
    · show q.m_nSize + buffer.length = _
      rw [List.length_append, hsize]
    · exact hhead
    · show q.m_nHeadPos + (q.m_nSize + buffer.length) ≤ q.m_nMaxBuffer
      omega
    · show m.take (q.m_nHeadPos + (q.m_nSize + buffer.length)) = _
      rw [hlen] at htake
      rw [← Nat.add_assoc, htake, hfull, ← List.map_append, ← List.map_append, List.append_assoc]
    · exact h.blockSize
    · exact h.max_lt
    · intro h0
      exact absurd h0 (by show q.m_nSize + buffer.length ≠ 0; omega)
  -- The content is at the beginning of the block before the bytes are inserted.
  rw [if_neg hback]
  obtain ⟨q₁, hq₁, hholds₁, hmax₁, hblock₁⟩ := setHeadPosition_holds h
  have hsize₁ : q₁.m_nSize = q.m_nSize := hholds₁.size.trans hsize.symm
  have hroom₁ : q₁.NoWrap buffer.length := by
    unfold NoWrap
    rw [hmax₁, hblock₁, hsize₁]
    exact hroom
  obtain ⟨q', hq', hholds'⟩ := insertShift_holds hholds₁ (Nat.min_le_right position q₁.m_nSize)
    (hsize₁.symm ▸ hlt) hroom₁
  rw [hq₁, Option.bind_eq_bind, Option.bind_some]
  exact ⟨q', [], hq', List.nil_prefix, hsize₁.trans hsize ▸ hholds'⟩

/-- The bytes that can be taken back when there is no content are none. -/
theorem Holds.nil (h : q.Holds ⟨gone, []⟩) : gone = [] :=
  List.length_eq_zero_iff.1 (h.head.symm.trans (h.empty h.size))

/-- The end of a `pop`. -/
theorem discard_holds (h : q.Holds t) (hle : p + n ≤ q.m_nSize) :
    ∃ q' gone', q.discard n p = some q' ∧ gone' <+: (t.remove n p).gone ∧
      q'.Holds ⟨gone', (t.remove n p).content⟩ := by
  have hblock := h.block
  have hfits := h.fits
  have hsize := h.size
  have hhead := h.head
  have hleft : q.m_nSize - n = (removeAt p n t.content).length := by
    rw [removeAt, List.length_append, List.length_take, List.length_drop]
    omega
  unfold discard
  dsimp only
  by_cases hnone : q.m_nSize - n = 0
  · have hnil : removeAt p n t.content = [] := List.length_eq_zero_iff.1 (hleft.symm.trans hnone)
    rw [if_pos hnone]
    refine ⟨_, [], rfl, List.nil_prefix, ?_⟩
    show Holds _ ⟨[], removeAt p n t.content⟩
    rw [hnil]
    refine ⟨hblock, hnone, rfl, ?_, ?_, h.blockSize, h.max_lt, fun _ ↦ rfl⟩
    · show 0 + (q.m_nSize - n) ≤ q.m_nMaxBuffer
      omega
    · show q.m_pBuffer.take (0 + (q.m_nSize - n)) = []
      rw [hnone, List.take_zero]
  rw [if_neg hnone]
  by_cases hzero : p = 0
  · -- The first bytes go, and stay in the block.
    subst hzero
    rw [if_pos rfl]
    refine ⟨_, t.gone ++ t.content.take n, rfl, ?_, ?_⟩
    · show _ <+: if 0 = 0 then t.gone ++ t.content.take n else t.gone
      rw [if_pos rfl]
    · have hremove : removeAt 0 n t.content = t.content.drop n := by
        rw [removeAt, List.take_zero, List.nil_append, Nat.zero_add]
      show Holds _ ⟨t.gone ++ t.content.take n, removeAt 0 n t.content⟩
      constructor
      · exact hblock
      · exact hleft
      · show q.m_nHeadPos + n = (t.gone ++ t.content.take n).length
        rw [List.length_append, List.length_take]
        omega
      · show q.m_nHeadPos + n + (q.m_nSize - n) ≤ q.m_nMaxBuffer
        omega
      · have hsum : q.m_nHeadPos + n + (q.m_nSize - n) = q.m_nHeadPos + q.m_nSize := by omega
        show q.m_pBuffer.take (q.m_nHeadPos + n + (q.m_nSize - n)) = _
        rw [hsum, h.cells, hremove, List.append_assoc, List.take_append_drop]
      · exact h.blockSize
      · exact h.max_lt
      · exact fun h0 ↦ absurd h0 hnone
  · -- The bytes behind move up.
    have hgap : q.m_nHeadPos + p + n ≤ q.m_nHeadPos + q.m_nSize := by omega
    obtain ⟨m, hm, hmlen, htake⟩ := close_gap hgap (by omega : _ ≤ q.m_pBuffer.length)
    have htail : q.m_nHeadPos + q.m_nSize - n - (q.m_nHeadPos + p) = q.m_nSize - n - p := by omega
    rw [htail] at hm htake
    rw [if_neg hzero, hm, Option.bind_eq_bind, Option.bind_some]
    refine ⟨_, t.gone, rfl, ?_, ?_⟩
    · show _ <+: if p = 0 then t.gone ++ t.content.take n else t.gone
      rw [if_neg hzero]
    · have hall : slice (p + n) (q.m_nSize - n - p) t.content = t.content.drop (p + n) := by
        rw [slice, List.take_of_length_le]
        rw [List.length_drop]
        omega
      show Holds _ ⟨t.gone, removeAt p n t.content⟩
      constructor
      · exact hmlen.trans hblock
      · exact hleft
      · exact hhead
      · show q.m_nHeadPos + (q.m_nSize - n) ≤ q.m_nMaxBuffer
        omega
      · have hsum : q.m_nHeadPos + (q.m_nSize - n) = q.m_nHeadPos + q.m_nSize - n := by omega
        show m.take (q.m_nHeadPos + (q.m_nSize - n)) = _
        rw [hsum, htake, h.take_eq (by omega), Nat.add_assoc, h.slice_content (by omega), hall,
          ← List.map_append, List.append_assoc, removeAt]
      · exact h.blockSize
      · exact h.max_lt
      · exact fun h0 ↦ absurd h0 hnone

theorem pop_holds (h : q.Holds t) (len position : ℕ) :
    ∃ q' gone', q.pop len position = some (min len (t.content.length - position), q') ∧
      gone' <+: (t.remove (min len (t.content.length - position)) position).gone ∧
      q'.Holds ⟨gone', (t.remove (min len (t.content.length - position)) position).content⟩ := by
  have hsize := h.size
  unfold pop
  by_cases hnone : len = 0 ∨ q.m_nSize ≤ position
  · have hmin : min len (t.content.length - position) = 0 := by omega
    rw [if_pos hnone, hmin]
    refine ⟨q, t.gone, rfl, ?_, ?_⟩
    · show _ <+: if position = 0 then t.gone ++ t.content.take 0 else t.gone
      rw [List.take_zero, List.append_nil, ite_self]
    · show q.Holds ⟨t.gone, removeAt position 0 t.content⟩
      rw [removeAt, Nat.add_zero, List.take_append_drop]
      exact h
  · obtain ⟨q', gone', hq', hgone', hholds'⟩ := discard_holds h
      (n := min len (t.content.length - position)) (p := position) (by omega)
    rw [if_neg hnone]
    dsimp only
    rw [hsize, hq', Option.bind_eq_bind, Option.bind_some]
    exact ⟨q', gone', rfl, hgone', hholds'⟩

/-- The sum `Pop` into a buffer computes wraps to a number that is not above the size. -/
def Wraps (q : CUQueue) (len position : ℕ) : Prop :=
  2 ^ 32 ≤ len + position ∧ (len + position) % 2 ^ 32 ≤ q.m_nSize

instance {q : CUQueue} {len position : ℕ} : Decidable (q.Wraps len position) := by
  unfold Wraps
  infer_instance

theorem popInto_holds (h : q.Holds t) {len position : ℕ}
    (hwrap : ¬ q.Wraps len position) :
    ∃ r q' gone', q.popInto len position = some (r, q') ∧
      (if t.content.length < len + position then
          r = .thrown .remainingData ∧ q' = q ∧ gone' = t.gone
        else r = .bytes ((slice position len t.content).map some) ∧
          gone' <+: (t.remove len position).gone ∧
          q'.Holds ⟨gone', (t.remove len position).content⟩) := by
  have hsize := h.size
  have hfits := h.fits
  have hblock := h.block
  have hlt := h.max_lt
  unfold popInto
  by_cases hshort : t.content.length < len + position
  · have hthrow : q.m_nSize < (len + position) % 2 ^ 32 := by
      unfold Wraps at hwrap
      omega
    rw [if_pos hthrow]
    exact ⟨_, q, t.gone, rfl, by rw [if_pos hshort]; exact ⟨rfl, rfl, rfl⟩⟩
  · have hle : position + len ≤ q.m_nSize := by omega
    have hmod : (len + position) % 2 ^ 32 = len + position := Nat.mod_eq_of_lt (by omega)
    have hnot : ¬ q.m_nSize < (len + position) % 2 ^ 32 := by omega
    obtain ⟨q', gone', hq', hgone', hholds'⟩ := discard_holds h hle
    have hread : Block.read q.m_pBuffer (q.m_nHeadPos + position) len =
        some ((slice position len t.content).map some) := by
      rw [read_eq_some (by omega), h.slice_content hle]
    rw [if_neg hnot, hread, Option.bind_eq_bind, Option.bind_some, hq', Option.bind_eq_bind,
      Option.bind_some]
    exact ⟨_, q', gone', rfl, by rw [if_neg hshort]; exact ⟨rfl, hgone', hholds'⟩⟩

/-- A copy over bytes of the content. -/
theorem overwrite_holds (h : q.Holds t) (hle : p + buffer.length ≤ q.m_nSize) :
    ∃ m, write q.m_pBuffer (q.m_nHeadPos + p) (buffer.map some) = some m ∧
      Holds { q with m_pBuffer := m } ⟨t.gone, overwrite p buffer t.content⟩ := by
  have hblock := h.block
  have hfits := h.fits
  have hsize := h.size
  have hhead := h.head
  have hlen : (buffer.map some).length = buffer.length := List.length_map _
  have hwrite : q.m_nHeadPos + p + (buffer.map some).length ≤ q.m_pBuffer.length := by omega
  refine ⟨_, write_eq_some hwrite, ?_⟩
  constructor
  · exact (length_overwrite hwrite).trans hblock
  · exact hsize.trans (length_overwrite (hsize ▸ hle)).symm
  · exact hhead
  · exact hfits
  · have hdrop : (t.gone ++ t.content).drop (q.m_nHeadPos + p + buffer.length) =
        t.content.drop (p + buffer.length) := by
      rw [hhead, Nat.add_assoc, List.drop_length_add_append]
    have htake : (t.gone ++ t.content).take (q.m_nHeadPos + p) = t.gone ++ t.content.take p := by
      rw [hhead, List.take_length_add_append]
    show (overwrite (q.m_nHeadPos + p) (buffer.map some) q.m_pBuffer).take
      (q.m_nHeadPos + q.m_nSize) = (t.gone ++ overwrite p buffer t.content).map some
    rw [take_overwrite (by omega) (by omega), h.cells, overwrite, hlen, ← List.map_take,
      ← List.map_drop, htake, hdrop, overwrite, ← List.map_append, ← List.map_append]
    simp only [List.append_assoc]
  · exact h.blockSize
  · exact h.max_lt
  · exact h.empty

theorem replace_holds (h : q.Holds t) {pos len : ℕ} (hle : pos + len ≤ q.m_nSize)
    (hlt : q.m_nSize - len + buffer.length < 0xf0000000)
    (hroom : q.NoWrap (buffer.length - len)) :
    ∃ q' gone', q.replace pos len buffer = some q' ∧
      gone' <+: (if pos + buffer.length = 0 then t.gone ++ t.content.take len else t.gone) ∧
      q'.Holds ⟨gone', t.content.take pos ++ buffer ++ t.content.drop (pos + len)⟩ := by
  have hsize := h.size
  have hshort : pos + (buffer.take len).length ≤ q.m_nSize := by
    rw [List.length_take]
    omega
  obtain ⟨m, hm, hholds⟩ := overwrite_holds h hshort
  have hpre : (t.content.take pos ++ buffer.take len).length = pos + min len buffer.length := by
    rw [List.length_append, List.length_take, List.length_take]
    omega
  unfold replace
  rw [hm, Option.bind_eq_bind, Option.bind_some]
  dsimp only
  by_cases hless : buffer.length < len
  · -- The bytes that are too many go.
    have hall : buffer.take len = buffer := List.take_of_length_le (Nat.le_of_lt hless)
    have hcount : min (len - buffer.length) ((overwrite pos buffer t.content).length -
        (pos + buffer.length)) = len - buffer.length := by
      rw [length_overwrite (by omega)]
      omega
    rw [hall] at hholds hpre
    obtain ⟨q', gone', hq', hgone', hholds'⟩ := pop_holds hholds (len - buffer.length)
      (pos + buffer.length)
    rw [hcount] at hgone' hholds' hq'
    rw [if_pos hless, hq', Option.bind_eq_bind, Option.bind_some]
    refine ⟨q', gone', rfl, ?_, ?_⟩
    · have hfirst : pos + buffer.length = 0 →
          (overwrite pos buffer t.content).take (len - buffer.length) = t.content.take len := by
        intro h0
        have hpos : pos = 0 := by omega
        have hnil : buffer = [] := List.length_eq_zero_iff.1 (by omega)
        subst hpos hnil
        rfl
      have hsame : (if pos + buffer.length = 0 then t.gone ++ (overwrite pos buffer t.content).take
          (len - buffer.length) else t.gone) =
            if pos + buffer.length = 0 then t.gone ++ t.content.take len else t.gone := by
        split_ifs with h0
        · rw [hfirst h0]
        · rfl
      exact hsame ▸ hgone'
    · have hremove : removeAt (pos + buffer.length) (len - buffer.length)
          (overwrite pos buffer t.content) = t.content.take pos ++ buffer ++
            t.content.drop (pos + len) := by
        rw [overwrite, removeAt_append (by omega), List.drop_drop]
        congr 2
        omega
      exact hremove ▸ hholds'
  rw [if_neg hless]
  have hgone :
      (if pos + buffer.length = 0 then t.gone ++ t.content.take len else t.gone) = t.gone := by
    split_ifs with h0
    · have hlen : len = 0 := by omega
      rw [hlen, List.take_zero, List.append_nil]
    · rfl
  rw [hgone]
  have hover : overwrite pos (buffer.take len) t.content =
      t.content.take pos ++ buffer.take len ++ t.content.drop (pos + len) := by
    rw [overwrite, List.length_take, Nat.min_eq_left (by omega)]
  by_cases heq : len = buffer.length
  · have hall : buffer.take len = buffer := List.take_of_length_le (Nat.le_of_eq heq.symm)
    rw [hover, hall] at hholds
    rw [if_pos heq]
    exact ⟨_, t.gone, rfl, List.prefix_rfl, hholds⟩
  · -- The other bytes are inserted.
    have hdrop : (buffer.drop len).length = buffer.length - len := List.length_drop
    have hroom' : NoWrap { q with m_pBuffer := m } (buffer.drop len).length := by
      rw [hdrop]
      exact hroom
    have hlt' : (buffer.drop len).length + q.m_nSize < 0xf0000000 := by
      rw [hdrop]
      omega
    obtain ⟨q', gone', hq', hgone', hholds'⟩ := insert_holds hholds (pos + len) hlt' hroom'
    have hmin : min (pos + len) (overwrite pos (buffer.take len) t.content).length = pos + len := by
      rw [length_overwrite (by omega)]
      omega
    have hinsert : insertAt (pos + len) (buffer.drop len)
        (overwrite pos (buffer.take len) t.content) =
          t.content.take pos ++ buffer ++ t.content.drop (pos + len) := by
      rw [hover, insertAt_append (by omega), List.append_assoc, List.append_assoc,
        ← List.append_assoc (buffer.take len), List.take_append_drop]
    rw [if_neg heq]
    rw [hmin, hinsert] at hholds'
    exact ⟨q', gone', hq', hgone', hholds'⟩

theorem setHeadPositionTo_holds (h : q.Holds t) {headPos : ℕ} (hle : headPos ≤ q.m_nHeadPos) :
    (q.setHeadPositionTo headPos).Holds
      ⟨t.gone.take headPos, t.gone.drop headPos ++ t.content⟩ := by
  have hsize := h.size
  have hhead := h.head
  have hfits := h.fits
  have hsum : headPos + (q.m_nSize + (q.m_nHeadPos - headPos)) = q.m_nHeadPos + q.m_nSize := by
    omega
  unfold setHeadPositionTo
  by_cases hge : q.m_nHeadPos ≤ headPos
  · have htake : t.gone.take headPos = t.gone := List.take_of_length_le (hhead ▸ hge)
    have hdrop : t.gone.drop headPos = [] := List.drop_of_length_le (hhead ▸ hge)
    rw [if_pos hge, htake, hdrop, List.nil_append]
    exact h
  · rw [if_neg hge]
    constructor
    · exact h.block
    · show q.m_nSize + (q.m_nHeadPos - headPos) = (t.gone.drop headPos ++ t.content).length
      rw [List.length_append, List.length_drop]
      omega
    · show headPos = (t.gone.take headPos).length
      rw [List.length_take]
      omega
    · show headPos + (q.m_nSize + (q.m_nHeadPos - headPos)) ≤ q.m_nMaxBuffer
      omega
    · show q.m_pBuffer.take (headPos + (q.m_nSize + (q.m_nHeadPos - headPos))) = _
      rw [hsum, h.cells, ← List.append_assoc, List.take_append_drop]
    · exact h.blockSize
    · exact h.max_lt
    · intro h0
      exact absurd h0 (by show q.m_nSize + (q.m_nHeadPos - headPos) ≠ 0; omega)

/-- Fewer bytes of a block that holds a list. -/
theorem Holds.shorten {c d : List UInt8} (h : q.Holds ⟨gone, c ++ d⟩)
    (hempty : c = [] → gone = []) : Holds { q with m_nSize := c.length } ⟨gone, c⟩ := by
  have hsize : q.m_nSize = c.length + d.length := h.size.trans List.length_append
  have hfits := h.fits
  constructor
  · exact h.block
  · rfl
  · exact h.head
  · show q.m_nHeadPos + c.length ≤ q.m_nMaxBuffer
    omega
  · have htake := h.take_eq (n := c.length) (by omega)
    show q.m_pBuffer.take (q.m_nHeadPos + c.length) = (gone ++ c).map some
    rw [htake, List.take_left]
  · exact h.blockSize
  · exact h.max_lt
  · intro h0
    have hnil := hempty (List.length_eq_zero_iff.1 h0)
    exact h.head.trans (by rw [hnil]; rfl)

theorem setSize_holds (h : q.Holds t) {size : ℕ} (hle : size ≤ q.m_nSize) (adjustHeadPos : Bool) :
    ∃ q' gone', q.setSize size adjustHeadPos = some q' ∧ gone' <+: t.gone ∧
      q'.Holds ⟨gone', t.content.take size⟩ := by
  have hsize := h.size
  have hfits := h.fits
  have hblock := h.block
  have hlen : (t.content.take size).length = size := by
    rw [List.length_take]
    omega
  unfold setSize
  by_cases hmove : adjustHeadPos = true ∧ q.m_nHeadPos ≠ 0
  · have hread : q.m_nHeadPos + size ≤ q.m_pBuffer.length := by omega
    have hwrite : 0 + size ≤ q.m_pBuffer.length := by omega
    obtain ⟨m, hm, hmlen, htake⟩ := copyAny_end hread hwrite
    rw [if_pos hmove, hm, Option.bind_eq_bind, Option.bind_some]
    refine ⟨_, [], rfl, List.nil_prefix, ?_⟩
    constructor
    · exact hmlen.trans hblock
    · exact hlen.symm
    · rfl
    · show 0 + size ≤ q.m_nMaxBuffer
      omega
    · have hcontent := h.slice_content (p := 0) (n := size) (by omega)
      rw [Nat.add_zero] at hcontent
      show m.take (0 + size) = (t.content.take size).map some
      rw [htake, List.take_zero, List.nil_append, hcontent, slice, List.drop_zero]
    · exact h.blockSize
    · exact h.max_lt
    · exact fun _ ↦ rfl
  · rw [if_neg hmove]
    by_cases hzero : size = 0
    · subst hzero
      refine ⟨_, [], rfl, List.nil_prefix, hblock, rfl, rfl, Nat.zero_le _, rfl, h.blockSize,
        h.max_lt, fun _ ↦ rfl⟩
    · have hsplit : q.Holds ⟨t.gone, t.content.take size ++ t.content.drop size⟩ := by
        rw [List.take_append_drop]
        exact h
      have hne : t.content.take size ≠ [] := fun hnil ↦ hzero (by rw [← hlen, hnil]; rfl)
      have hshort := hsplit.shorten fun hnil ↦ absurd hnil hne
      rw [hlen] at hshort
      rw [if_neg hzero]
      exact ⟨_, t.gone, rfl, List.prefix_rfl, hshort⟩

theorem reallocBuffer_holds (h : q.Holds t) {size : ℕ} (hle : q.m_nSize ≤ size)
    (hlt : size < 2 ^ 32) :
    ∃ q', q.reallocBuffer size = some q' ∧ q'.Holds ⟨[], t.content⟩ := by
  have hsize := h.size
  have hfits := h.fits
  have hblock := h.block
  have hpos := h.blockSize
  unfold reallocBuffer
  obtain ⟨n, hn, hn_lt, hn_le⟩ : ∃ n, (if size = 0 then q.m_nBlockSize else size) = n ∧
      n < 2 ^ 32 ∧ q.m_nSize ≤ n := by
    refine ⟨_, rfl, ?_, ?_⟩ <;> split_ifs <;> omega
  have hread : q.m_nHeadPos + q.m_nSize ≤ q.m_pBuffer.length := by omega
  have hwrite : 0 + q.m_nSize ≤ (alloc n : List (Option UInt8)).length := by
    rw [length_alloc]
    omega
  obtain ⟨m, hm, hmlen, htake⟩ := copyAny_end hread hwrite
  dsimp only
  rw [hn, Nat.min_eq_left hn_le, hm, Option.bind_eq_bind, Option.bind_some]
  refine ⟨_, rfl, ?_⟩
  constructor
  · exact hmlen.trans length_alloc
  · exact hsize
  · rfl
  · show 0 + q.m_nSize ≤ n
    omega
  · show m.take (0 + q.m_nSize) = t.content.map some
    rw [htake, List.take_zero, List.nil_append]
    exact h.content_eq
  · exact h.blockSize
  · exact hn_lt
  · exact fun _ ↦ rfl

theorem setNull_holds (h : q.Holds t) (windows : Bool) (hlt : q.m_nSize < 2 ^ 31)
    (hroom : q.NoWrap (wchar windows)) :
    ∃ q' gone', q.setNull windows = some q' ∧ gone' <+: t.gone ∧ q'.Holds ⟨gone', t.content⟩ := by
  have hsize := h.size
  have hfits := h.fits
  have hblock := h.block
  have hlen : (List.replicate (wchar windows) (0 : UInt8)).length = wchar windows :=
    List.length_replicate
  have hwchar : wchar windows ≤ 4 := by cases windows <;> decide
  unfold setNull
  dsimp only
  by_cases hfree : q.m_nHeadPos + q.m_nSize + wchar windows ≤ q.m_nMaxBuffer
  · have hwrite : q.m_nHeadPos + q.m_nSize +
        ((List.replicate (wchar windows) (0 : UInt8)).map some).length ≤ q.m_pBuffer.length := by
      rw [List.length_map, hlen]
      omega
    rw [if_pos hfree, write_eq_some hwrite, Option.bind_eq_bind, Option.bind_some]
    refine ⟨_, t.gone, rfl, List.prefix_rfl, ?_⟩
    constructor
    · exact (length_overwrite hwrite).trans hblock
    · exact hsize
    · exact h.head
    · exact hfits
    · show (overwrite _ _ q.m_pBuffer).take (q.m_nHeadPos + q.m_nSize) = _
      rw [take_overwrite_of_le (Nat.le_refl _) (by omega), h.cells]
    · exact h.blockSize
    · exact h.max_lt
    · exact h.empty
  · -- The zeros are pushed, and taken off the content again.
    have hlt' : (List.replicate (wchar windows) (0 : UInt8)).length + q.m_nSize < 0xf0000000 := by
      omega
    obtain ⟨q', gone', hq', hgone', hholds'⟩ := insert_holds h UQUEUE_END_POSTION hlt'
      (by rwa [hlen])
    have hend : min UQUEUE_END_POSTION t.content.length = t.content.length :=
      Nat.min_eq_right (by rw [← hsize, UQUEUE_END_POSTION]; omega)
    rw [hend, insertAt_length] at hholds'
    have hempty : t.content = [] → gone' = [] := by
      intro hnil
      have hgone : t.gone = [] :=
        Holds.nil (q := q) (show q.Holds ⟨t.gone, []⟩ from hnil ▸ h)
      exact List.prefix_nil.1 (hgone ▸ hgone')
    have hshort := hholds'.shorten hempty
    have hsize' : q'.m_nSize - wchar windows = t.content.length := by
      rw [hholds'.size, List.length_append, hlen, Nat.add_sub_cancel]
    rw [if_neg hfree, push, hq', Option.bind_eq_bind, Option.bind_some, hsize']
    exact ⟨_, gone', rfl, hgone', hshort⟩

end CUQueue

end SocketPro.Memory
