import SocketPro.CSharp.CUQueue

/-!
# The C# `CUQueue` as a byte list

`Op.spec` says what each operation does to a list of bytes. `Holds q t` says that the content of `q`
is the list `t` and lies in the array.

**Where it fails.** `Append` computes where it writes before it makes room, and making room moves
the content to the front of the array: if the content did not start there, as many zeros as its head
position come between the content and the new bytes, and as many of the new bytes are cut off
(`not_byte_list`). Besides, `Append` asks for a larger array in blocks, and .NET has none longer
than `maxLength`.

* `queue_is_byte_list` — **within the condition every run is one of byte lists**: no array grows
  while the head position is not zero, and no array longer than `maxLength` is asked for;
* `stays_inside` — with the second condition alone no copy leaves an array.
-/

namespace SocketPro.CSharp

open Block Bytes Machine

/-- The result of an operation on a byte list, and the list it leaves. -/
def Op.spec (t : List UInt8) : Op → Result × List UInt8
  | .append pData => (.done, t ++ pData)
  | .copyTo len =>
    if t.length < len.toNat then (.thrown (.invalidOperation "Invalid data found"), [])
    else (.bytes (t.take len.toNat), t.drop len.toNat)
  | .pop nLen => (.bytes (t.take nLen.toNat), t.drop nLen.toNat)
  | .popString nBytes =>
    if 0 < nBytes.toNat % 2 then (.thrown .argument, t)
    else (.bytes (t.take nBytes.toNat), t.drop nBytes.toNat)
  | .discard len => (.count (min len.toNat t.length), t.drop len.toNat)
  | .setSize size => (.done, t.take size.toNat)
  | .realloc _ => (.done, t)
  | .empty => (.done, [])

namespace CUQueue

/-! ### The representation -/

/-- The content lies in the array, which .NET can make. -/
structure Sound (q : CUQueue) : Prop where
  fits : q.m_position + q.m_len ≤ q.m_bytes.length
  length_le : q.m_bytes.length ≤ maxLength
  block_pos : 0 < q.m_blockSize
  block_lt : q.m_blockSize < 2 ^ 32

/-- The queue holds the list. -/
structure Holds (q : CUQueue) (t : List UInt8) : Prop extends q.Sound where
  content : q.content = t

variable {q : CUQueue} {t : List UInt8} {k n : ℕ}

theorem Sound.length_lt (h : q.Sound) : q.m_bytes.length < 2 ^ 32 :=
  Nat.lt_of_le_of_lt h.length_le (by decide)

theorem Sound.length_content (h : q.Sound) : q.content.length = q.m_len := length_slice h.fits

theorem Holds.length (h : q.Holds t) : t.length = q.m_len := by
  rw [← h.content, h.length_content]

theorem new_holds {InitialSize BlockSize : UInt32} (hsize : InitialSize.toNat ≤ maxLength)
    (hblock : BlockSize ≠ 0) : (new InitialSize BlockSize).Holds [] where
  fits := Nat.zero_le _
  length_le := by
    rw [new, List.length_replicate]
    exact hsize
  block_pos := Nat.pos_of_ne_zero fun h0 ↦ hblock (UInt32.toNat_inj.1 h0)
  block_lt := BlockSize.toNat_lt
  content := slice_zero

/-! ### Reading -/

/-- The front of the content. -/
theorem read_eq (h : q.Sound) (hk : k ≤ q.m_len) :
    read q.m_bytes q.m_position k = some (q.content.take k) := by
  have hfits := h.fits
  rw [read_eq_some (by omega), content, take_slice hk]

theorem drop_sound (h : q.Sound) (hk : k ≤ q.m_len) : (q.drop k).Sound := by
  refine ⟨?_, h.length_le, h.block_pos, h.block_lt⟩
  have hfits := h.fits
  show (if q.m_len - k = 0 then 0 else q.m_position + k) + (q.m_len - k) ≤ q.m_bytes.length
  split <;> omega

theorem content_drop (q : CUQueue) (k : ℕ) : (q.drop k).content = q.content.drop k := by
  rw [content, content, drop_slice]
  show slice (if q.m_len - k = 0 then 0 else q.m_position + k) (q.m_len - k) q.m_bytes = _
  split
  · next h0 => rw [h0, slice_zero, slice_zero]
  · rfl

/-- What is read goes from the front of the list. -/
theorem Holds.drop (h : q.Holds t) (n : ℕ) : (q.drop (min n q.m_len)).Holds (t.drop n) where
  toSound := drop_sound h.toSound (Nat.min_le_right _ _)
  content := by
    rw [content_drop, h.content]
    rcases Nat.le_total n q.m_len with hle | hge
    · rw [Nat.min_eq_left hle]
    · rw [Nat.min_eq_right hge, List.drop_of_length_le h.length.le,
        List.drop_of_length_le (h.length.trans_le hge)]

theorem Holds.take (h : q.Holds t) (n : ℕ) : q.content.take (min n q.m_len) = t.take n := by
  rw [h.content, ← h.length, ← List.take_take, List.take_length]

/-! ### Appending -/

theorem grows_iff (h : q.Sound) :
    q.Grows n ↔ q.m_bytes.length - (q.m_position + q.m_len) < n := by
  have hfits := h.fits
  have hlt := h.length_lt
  rw [Grows, Nat.mod_eq_of_lt (by omega), sub32_of_le hfits hlt]

theorem tailSize_eq (h : q.Sound) :
    q.TailSize = q.m_bytes.length - (q.m_position + q.m_len) := by
  have hfits := h.fits
  have hlt := h.length_lt
  rw [TailSize, sub32_of_le (by omega) hlt, sub32_of_le (by omega) (by omega), Nat.sub_sub]

/-- The blocks that are added are enough, and their size does not wrap. -/
theorem lt_addedSize (h : q.Sound) (hgrows : q.Grows n) (hn : n < 2 ^ 31) :
    n - q.TailSize < q.addedSize n := by
  have htail := tailSize_eq h
  have hpos := h.block_pos
  have hblock := h.block_lt
  rw [grows_iff h, ← htail] at hgrows
  have hdiv : (n - q.TailSize) / q.m_blockSize * q.m_blockSize ≤ n - q.TailSize :=
    Nat.div_mul_le_self _ _
  have hmod := Nat.lt_div_mul_add (a := n - q.TailSize) hpos
  have hquot : (n - q.TailSize) / q.m_blockSize ≤ n - q.TailSize := Nat.div_le_self _ _
  have hmul : ((n - q.TailSize) / q.m_blockSize + 1) * q.m_blockSize =
      (n - q.TailSize) / q.m_blockSize * q.m_blockSize + q.m_blockSize := by
    rw [Nat.add_mul, Nat.one_mul]
  have hwrap : ((n - q.TailSize) / q.m_blockSize + 1) * q.m_blockSize < 2 ^ 32 := by
    rcases Nat.lt_or_ge (n - q.TailSize) q.m_blockSize with hless | hmore
    · rw [Nat.div_eq_of_lt hless, Nat.zero_add, Nat.one_mul]
      exact hblock
    · omega
  rw [addedSize, sub32_of_le (Nat.le_of_lt hgrows) (by omega), Nat.mod_eq_of_lt (a := _ + 1) (by omega),
    Nat.mod_eq_of_lt hwrap]
  omega

/-- **`Realloc`** keeps the content and moves it to the front. -/
theorem realloc_ok (h : q.Sound) (hn : n ≤ maxLength) (hlen : q.m_len ≤ n) :
    ∃ m, Realloc n q = .ok () { q with m_bytes := m, m_position := 0 } ∧
      m.length = (if n = 0 then DEFAULT_BUFFER_SIZE else n) ∧
      slice 0 q.m_len m = q.content := by
  have hsize : (if n = 0 then DEFAULT_BUFFER_SIZE else n) ≤ maxLength := by
    split
    · decide
    · exact hn
  have hle : q.m_len ≤ if n = 0 then DEFAULT_BUFFER_SIZE else n := by
    split <;> omega
  have hnew : newArray (if n = 0 then DEFAULT_BUFFER_SIZE else n) q =
      .ok (List.replicate (if n = 0 then DEFAULT_BUFFER_SIZE else n) 0) q :=
    if_neg (Nat.not_lt.2 hsize)
  have hroom : 0 + q.m_len ≤
      (List.replicate (if n = 0 then DEFAULT_BUFFER_SIZE else n) (0 : UInt8)).length := by
    rw [List.length_replicate, Nat.zero_add]
    exact hle
  obtain ⟨m, hm, hmlen, hmtake⟩ := copyAny_end h.fits hroom
  refine ⟨m, ?_, by rw [hmlen, List.length_replicate], ?_⟩
  · have hkeep : (if (if n = 0 then DEFAULT_BUFFER_SIZE else n) < q.m_len then
        (if n = 0 then DEFAULT_BUFFER_SIZE else n) else q.m_len) = q.m_len :=
      if_neg (Nat.not_lt.2 hle)
    rw [Realloc]
    refine (Effect.bind_ok hnew).trans ?_
    simp only [hkeep, hm]
  · rw [Nat.zero_add, List.take_zero, List.nil_append] at hmtake
    rw [← take_eq_slice, hmtake, content]

/-- The larger array of `Append` is one that .NET can make. -/
def Fits (q : CUQueue) (n : ℕ) : Prop := q.Grows n → q.MaxBufferSize + q.addedSize n ≤ maxLength

instance (q : CUQueue) (n : ℕ) : Decidable (q.Fits n) := by
  unfold Fits
  infer_instance

/-- What `Append` writes into: the array that is there, or a larger one with the content in front. -/
theorem makeRoom_ok (h : q.Sound) (hn : n < 2 ^ 31) (hfits : q.Fits n) :
    ∃ q', makeRoom n q = .ok () q' ∧ q'.Sound ∧ q'.content = q.content ∧ q'.m_len = q.m_len ∧
      q.m_position + q.m_len + n ≤ q'.m_bytes.length ∧
      (¬ q.Grows n ∧ q' = q ∨ q.Grows n ∧ q'.m_position = 0) := by
  have hin := h.fits
  by_cases hgrows : q.Grows n
  · have hsize := hfits hgrows
    have hadded := lt_addedSize h hgrows hn
    have htail := tailSize_eq h
    have hmax : q.MaxBufferSize = q.m_bytes.length := rfl
    have hne : q.MaxBufferSize + q.addedSize n ≠ 0 := by omega
    have hwrap : (q.MaxBufferSize + q.addedSize n) % 2 ^ 32 = q.MaxBufferSize + q.addedSize n :=
      Nat.mod_eq_of_lt (Nat.lt_of_le_of_lt hsize (by decide))
    obtain ⟨m, hm, hlen, hslice⟩ := realloc_ok h hsize (by omega)
    rw [if_neg hne] at hlen
    refine ⟨{ q with m_bytes := m, m_position := 0 }, ?_, ⟨?_, ?_, h.block_pos, h.block_lt⟩, hslice,
      rfl, ?_, .inr ⟨hgrows, rfl⟩⟩
    · rw [makeRoom, if_pos hgrows, if_neg (Nat.ne_of_gt h.block_pos), hwrap, hm]
    · show 0 + q.m_len ≤ m.length
      omega
    · show m.length ≤ maxLength
      omega
    · show _ ≤ m.length
      omega
  · refine ⟨q, by rw [makeRoom, if_neg hgrows], h, rfl, rfl, ?_, .inl ⟨hgrows, rfl⟩⟩
    rw [grows_iff h] at hgrows
    omega

/-- The state after `Append`, with the bytes at the position that was computed first. -/
theorem append_ok {pData : List UInt8} (h : q.Sound) (hlen : q.m_len + pData.length < 2 ^ 31)
    (hfits : q.Fits pData.length) :
    ∃ q' : CUQueue, Append pData q = .ok () q' ∧ q'.Sound ∧
      q'.m_len = q.m_len + pData.length ∧
      ((¬ q.Grows pData.length ∨ q.m_position = 0) → q'.content = q.content ++ pData) := by
  have hlt := h.length_lt
  have hin := h.fits
  obtain ⟨q₁, hroom, hsound, hcontent, hlen₁, hspace, hwhich⟩ :=
    makeRoom_ok h (by omega) hfits
  have hremaining : (q.m_position + q.m_len) % 2 ^ 32 = q.m_position + q.m_len :=
    Nat.mod_eq_of_lt (by omega)
  have hcopy : copyMemory (q.m_position + q.m_len) pData q₁ = .ok () { q₁ with
      m_bytes := overwrite (q.m_position + q.m_len) pData q₁.m_bytes } := by
    rw [copyMemory, write_eq_some hspace]
  have hsum : (q₁.m_len + pData.length) % 2 ^ 32 = q.m_len + pData.length := by
    rw [hlen₁, Nat.mod_eq_of_lt (by omega)]
  have hwritten := length_overwrite hspace
  have hpos : q₁.m_position ≤ q.m_position := by
    rcases hwhich with ⟨_, rfl⟩ | ⟨_, hzero⟩ <;> omega
  refine ⟨{ q₁ with
    m_bytes := overwrite (q.m_position + q.m_len) pData q₁.m_bytes,
    m_len := q.m_len + pData.length }, ?_, ⟨?_, ?_, hsound.block_pos, hsound.block_lt⟩, rfl, ?_⟩
  · rw [Append]
    simp only [hremaining]
    refine (Effect.bind_ok hroom).trans ((Effect.bind_ok hcopy).trans ?_)
    simp only [hsum]
  · show q₁.m_position + (q.m_len + pData.length) ≤ (overwrite _ _ _).length
    omega
  · show (overwrite _ _ _).length ≤ maxLength
    rw [hwritten]
    exact hsound.length_le
  · intro hcase
    -- the content has not been moved
    have hsame : q₁.m_position = q.m_position := by
      rcases hwhich with ⟨_, rfl⟩ | ⟨hgrows, hzero⟩
      · rfl
      · rw [hzero, hcase.resolve_left (not_not_intro hgrows)]
    rw [← hlen₁, ← hsame] at hspace ⊢
    obtain ⟨m, hm, _, hslice⟩ := write_behind hspace
    obtain rfl := Option.some.inj ((write_eq_some hspace).symm.trans hm)
    show slice q₁.m_position (q₁.m_len + pData.length) _ = _
    rw [hslice, ← hcontent, content]

/-! ### One operation -/

/-- The arguments the operations are meant for, with sizes below `2 ^ 31`. -/
def InDomain (q : CUQueue) : Op → Prop
  | .append pData => q.m_len + pData.length < 2 ^ 31
  | .setSize size => size.toNat ≤ q.m_len
  | .realloc newMaxSize => q.m_len ≤ newMaxSize.toNat
  | _ => True

/-- No array is asked for that .NET cannot make. -/
def Allocates (q : CUQueue) : Op → Prop
  | .append pData => q.Fits pData.length
  | .realloc newMaxSize => newMaxSize.toNat ≤ maxLength
  | _ => True

/-- No array grows while the head position is not zero. -/
def GrowsAtFront (q : CUQueue) : Op → Prop
  | .append pData => ¬ q.Grows pData.length ∨ q.m_position = 0
  | _ => True

instance (q : CUQueue) (op : Op) : Decidable (q.InDomain op) := by
  cases op <;> unfold InDomain <;> infer_instance

instance (q : CUQueue) (op : Op) : Decidable (q.Allocates op) := by
  cases op <;> unfold Allocates <;> infer_instance

instance (q : CUQueue) (op : Op) : Decidable (q.GrowsAtFront op) := by
  cases op <;> unfold GrowsAtFront <;> infer_instance

theorem result_ok {α : Type} {x : Method α} {f : α → Result} {q q' : CUQueue} {a : α}
    (h : x q = .ok a q') : Method.result x f q = some (f a, q') := by
  rw [Method.result, h]

theorem result_throw {α : Type} {x : Method α} {f : α → Result} {q q' : CUQueue} {e : Exception}
    (h : x q = .throw e q') : Method.result x f q = some (.thrown e, q') := by
  rw [Method.result, h]

/-- The queue without its content. -/
theorem holds_nil {q' : CUQueue} (h : q.Sound) (hbytes : q'.m_bytes.length ≤ maxLength)
    (hpos : q'.m_position = 0) (hlen : q'.m_len = 0) (hblock : q'.m_blockSize = q.m_blockSize) :
    q'.Holds [] where
  fits := by
    rw [hpos, hlen]
    exact Nat.zero_le _
  length_le := hbytes
  block_pos := hblock ▸ h.block_pos
  block_lt := hblock ▸ h.block_lt
  content := by rw [content, hlen, slice_zero]

theorem setSize_holds (h : q.Holds t) {size : ℕ} (hsize : size ≤ q.m_len) :
    ∃ q', SetSize size q = .ok () q' ∧ q'.Holds (t.take size) := by
  have hin := h.fits
  have hlt := h.length_lt
  by_cases hzero : size = 0
  · refine ⟨{ q with m_position := 0, m_len := 0 }, if_pos hzero, ?_⟩
    rw [hzero, List.take_zero]
    exact holds_nil h.toSound h.length_le rfl rfl rfl
  · have hroom : ¬ sub32 q.m_bytes.length q.m_position < size := by
      rw [sub32_of_le (by omega) hlt]
      omega
    refine ⟨{ q with m_len := size }, (if_neg hzero).trans (if_neg hroom),
      ⟨?_, h.length_le, h.block_pos, h.block_lt⟩, ?_⟩
    · show q.m_position + size ≤ q.m_bytes.length
      omega
    · rw [← h.content]
      exact (take_slice hsize).symm

theorem realloc_holds (h : q.Holds t) (hn : n ≤ maxLength) (hlen : q.m_len ≤ n) :
    ∃ q', Realloc n q = .ok () q' ∧ q'.Holds t := by
  obtain ⟨m, hm, hsize, hslice⟩ := realloc_ok h.toSound hn hlen
  refine ⟨{ q with m_bytes := m, m_position := 0 }, hm,
    ⟨?_, ?_, h.block_pos, h.block_lt⟩, hslice.trans h.content⟩
  · show 0 + q.m_len ≤ m.length
    rw [hsize]
    split <;> omega
  · show m.length ≤ maxLength
    rw [hsize]
    split
    · decide
    · exact hn

/-- A read of no more than the content. -/
theorem read_min (h : q.Holds t) (n : ℕ) :
    read q.m_bytes q.m_position (min n q.m_len) = some (t.take n) := by
  rw [read_eq h.toSound (Nat.min_le_right _ _), h.take]

theorem copyTo_holds (h : q.Holds t) (hn : n ≤ q.m_len) :
    CopyTo n q = .ok (t.take n) (q.drop n) ∧ (q.drop n).Holds (t.drop n) := by
  have hread := read_min h n
  have hdrop := h.drop n
  rw [Nat.min_eq_left hn] at hread hdrop
  refine ⟨?_, hdrop⟩
  rw [CopyTo, if_neg (Nat.not_lt.2 hn), hread]

theorem pop_holds (h : q.Holds t) (n : ℕ) :
    ∃ q', Pop n q = .ok (t.take n) q' ∧ q'.Holds (t.drop n) := by
  by_cases hempty : q.m_len = 0
  · obtain rfl : t = [] := List.length_eq_zero_iff.1 (h.length.trans hempty)
    refine ⟨q, ?_, ?_⟩
    · rw [Pop, if_pos hempty, List.take_nil]
    · rwa [List.drop_nil]
  · refine ⟨_, ?_, h.drop n⟩
    rw [Pop]
    simp only [if_neg hempty, read_min h n]

theorem popString_holds (h : q.Holds t) (heven : ¬ 0 < n % 2) :
    ∃ q', PopString n q = .ok (t.take n) q' ∧ q'.Holds (t.drop n) := by
  refine ⟨_, ?_, h.drop n⟩
  rw [PopString, if_neg heven]
  simp only [read_min h n]

/-- **One operation** returns what it returns on a byte list, and leaves a queue that holds the
resulting list. -/
theorem perform_refines (h : q.Holds t) (op : Op) (hdom : q.InDomain op) (halloc : q.Allocates op)
    (hfront : q.GrowsAtFront op) :
    ∃ q', q.perform op = some ((op.spec t).1, q') ∧ q'.Holds (op.spec t).2 := by
  have hlength := h.length
  cases op with
  | append pData =>
    obtain ⟨q', hq', hsound, hlen, hcontent⟩ := append_ok h.toSound hdom halloc
    exact ⟨q', result_ok hq', hsound, by rw [hcontent hfront, h.content]; rfl⟩
  | copyTo len =>
    rw [Op.spec, hlength]
    by_cases hshort : q.m_len < len.toNat
    · have hthrow : CopyTo len.toNat q = .throw (.invalidOperation "Invalid data found")
          { q with m_bytes := [], m_position := 0, m_len := 0 } := if_pos hshort
      rw [if_pos hshort]
      exact ⟨_, result_throw hthrow, holds_nil h.toSound (Nat.zero_le _) rfl rfl rfl⟩
    · obtain ⟨hcopy, hholds⟩ := copyTo_holds h (Nat.not_lt.1 hshort)
      rw [if_neg hshort]
      exact ⟨_, result_ok hcopy, hholds⟩
  | pop nLen =>
    obtain ⟨q', hq', hholds⟩ := pop_holds h nLen.toNat
    exact ⟨q', result_ok hq', hholds⟩
  | popString nBytes =>
    rw [Op.spec]
    by_cases hodd : 0 < nBytes.toNat % 2
    · have hthrow : PopString nBytes.toNat q = .throw .argument q := if_pos hodd
      rw [if_pos hodd]
      exact ⟨q, result_throw hthrow, h⟩
    · obtain ⟨q', hq', hholds⟩ := popString_holds h hodd
      rw [if_neg hodd]
      exact ⟨q', result_ok hq', hholds⟩
  | discard len =>
    rw [Op.spec, hlength]
    exact ⟨_, rfl, h.drop len.toNat⟩
  | setSize size =>
    obtain ⟨q', hq', hholds⟩ := setSize_holds h hdom
    exact ⟨q', result_ok hq', hholds⟩
  | realloc newMaxSize =>
    obtain ⟨q', hq', hholds⟩ := realloc_holds h halloc hdom
    exact ⟨q', result_ok hq', hholds⟩
  | empty =>
    exact ⟨_, rfl, holds_nil h.toSound (Nat.zero_le _) rfl rfl rfl⟩

/-- Where an array grows at any head position, the content still lies in it. -/
theorem perform_sound (h : q.Sound) (op : Op) (hdom : q.InDomain op) (halloc : q.Allocates op) :
    ∃ r q', q.perform op = some (r, q') ∧ q'.Sound := by
  by_cases hfront : q.GrowsAtFront op
  · obtain ⟨q', hq', hholds⟩ := perform_refines ⟨h, rfl⟩ op hdom halloc hfront
    exact ⟨_, q', hq', hholds.toSound⟩
  · cases op with
    | append pData =>
      obtain ⟨q', hq', hsound, _⟩ := append_ok h hdom halloc
      exact ⟨_, q', result_ok hq', hsound⟩
    | _ => exact absurd trivial hfront

end CUQueue

/-! ### Several queues -/

section Family

variable {ι : Type} [DecidableEq ι]

/-- The result of an action on byte lists, and the lists it leaves. -/
def Action.spec (t : ι → List UInt8) : Action ι → Result × (ι → List UInt8)
  | .on i op => ((op.spec (t i)).1, Function.update t i (op.spec (t i)).2)
  | .swap i j => (.done, Function.update (Function.update t i (t j)) j (t i))

/-- A condition on the operations, on the queue an action is about. -/
def OnQueue (C : CUQueue → Op → Prop) (s : ι → CUQueue) : Action ι → Prop
  | .on i op => C (s i) op
  | .swap _ _ => True

/-- What the results about runs are restricted to. -/
def InDomain : (ι → CUQueue) → Action ι → Prop := OnQueue CUQueue.InDomain

/-- Arrays grow only where nothing has been read, and to lengths that .NET can make. -/
def Guarded : (ι → CUQueue) → Action ι → Prop :=
  OnQueue fun q op ↦ q.Allocates op ∧ q.GrowsAtFront op

omit [DecidableEq ι] in
instance {C : CUQueue → Op → Prop} [∀ q op, Decidable (C q op)] (s : ι → CUQueue) (a : Action ι) :
    Decidable (OnQueue C s a) := by
  cases a <;> unfold OnQueue <;> infer_instance

omit [DecidableEq ι] in
instance (s : ι → CUQueue) (a : Action ι) : Decidable (InDomain s a) := by
  unfold InDomain
  infer_instance

omit [DecidableEq ι] in
instance (s : ι → CUQueue) (a : Action ι) : Decidable (Guarded s a) := by
  unfold Guarded
  infer_instance

variable {s : ι → CUQueue} {t : ι → List UInt8}

/-- What holds of each queue and its list holds after one of them is changed. -/
theorem update_related {R : CUQueue → List UInt8 → Prop} {i : ι} {q : CUQueue} {u : List UInt8}
    (h : ∀ i, R (s i) (t i)) (hq : R q u) (j : ι) :
    R (Function.update s i q j) (Function.update t i u j) := by
  by_cases hj : j = i
  · subst hj
    rwa [Function.update_self, Function.update_self]
  · rw [Function.update_of_ne hj, Function.update_of_ne hj]
    exact h j

theorem step_refines (h : ∀ i, (s i).Holds (t i)) (a : Action ι) (hdom : InDomain s a)
    (hguard : Guarded s a) :
    ∃ s', step s a = some ((a.spec t).1, s') ∧ ∀ i, (s' i).Holds ((a.spec t).2 i) := by
  cases a with
  | on i op =>
    obtain ⟨q', hq', hholds⟩ := CUQueue.perform_refines (h i) op hdom hguard.1 hguard.2
    refine ⟨Function.update s i q', ?_, update_related h hholds⟩
    show ((s i).perform op).map _ = _
    rw [hq', Option.map_some]
    rfl
  | swap i j => exact ⟨_, rfl, update_related (update_related h (h j)) (h i)⟩

/-- **The queue is a byte list.** From queues of any sizes and block sizes, every sequence of
operations in the domain in which arrays grow at the front returns what it returns on byte lists,
without a copy that leaves an array, and leaves the contents of the lists. -/
theorem queue_is_byte_list {InitialSize BlockSize : ι → UInt32}
    (hsize : ∀ i, (InitialSize i).toNat ≤ maxLength) (hblock : ∀ i, BlockSize i ≠ 0)
    (actions : List (Action ι))
    (h : Within (next step) (fun s a ↦ InDomain s a ∧ Guarded s a) (start InitialSize BlockSize)
      actions) :
    ∃ s, trace step (start InitialSize BlockSize) actions =
        some ((collect Action.spec (fun _ ↦ []) actions).1, s) ∧
      ∀ i, (s i).content = (collect Action.spec (fun _ ↦ []) actions).2 i ∧
        (s i).m_position + (s i).m_len ≤ (s i).m_bytes.length := by
  have hnew : ∀ i, (start InitialSize BlockSize i).Holds ((fun _ ↦ []) i) :=
    fun i ↦ CUQueue.new_holds (hsize i) (hblock i)
  have hsim : ∀ (s : ι → CUQueue) (t : ι → List UInt8) (a : Action ι),
      (∀ i, (s i).Holds (t i)) → InDomain s a ∧ Guarded s a →
      ∃ b s' t', step s a = some (b, s') ∧ a.spec t = (b, t') ∧ ∀ i, (s' i).Holds (t' i) :=
    fun s t a hR hC ↦ by
      obtain ⟨s', hs', hholds⟩ := step_refines hR a hC.1 hC.2
      exact ⟨_, s', _, hs', rfl, hholds⟩
  obtain ⟨rs, s, t, hs, ht, hholds⟩ := trace_simulates hsim actions hnew h
  rw [collect_of_steps ht]
  exact ⟨s, hs, fun i ↦ ⟨(hholds i).content, (hholds i).fits⟩⟩

/-- Two queues of eight bytes with blocks of eight: six bytes are read before the array grows, which
empties it, then the queues are swapped. -/
def someActions : List (Action Bool) :=
  [.on true (.append [1, 2, 3, 4, 5, 6]), .on true (.copyTo 4), .on true (.append [7, 8]),
    .on true (.popString 4), .on true (.append [9, 10, 11, 12, 13, 14, 15, 16, 17]),
    .swap true false, .on false (.pop 3), .on false (.realloc 6), .on false (.setSize 4),
    .on false (.copyTo 5), .on true .empty]

theorem someActions_within : Within (next step) (fun s a ↦ InDomain s a ∧ Guarded s a)
    (start (fun _ ↦ 8) fun _ ↦ 8) someActions := by
  decide +kernel

theorem queue_is_byte_list_someActions :
    ∃ s, trace step (start (fun _ ↦ 8) fun _ ↦ 8) someActions =
        some ((collect Action.spec (fun _ ↦ []) someActions).1, s) ∧
      ∀ i, (s i).content = (collect Action.spec (fun _ ↦ []) someActions).2 i ∧
        (s i).m_position + (s i).m_len ≤ (s i).m_bytes.length :=
  queue_is_byte_list (by decide) (by decide) someActions someActions_within

/-- Two bytes of six have been read when the array grows for eight more: two zeros come between, and
the last two bytes are gone. -/
def shiftedActions : List (Action Unit) :=
  [.on () (.append [1, 2, 3, 4, 5, 6]), .on () (.copyTo 2),
    .on () (.append [7, 8, 9, 10, 11, 12, 13, 14])]

theorem content_shifted :
    ((trace step (start (fun _ ↦ 8) fun _ ↦ 8) shiftedActions).map fun r ↦ (r.2 ()).content) =
        some [3, 4, 5, 6, 0, 0, 7, 8, 9, 10, 11, 12] ∧
      (collect Action.spec (fun _ ↦ []) shiftedActions).2 () =
        [3, 4, 5, 6, 7, 8, 9, 10, 11, 12, 13, 14] := by
  decide +kernel

theorem not_byte_list :
    ¬ ∀ (InitialSize BlockSize : Unit → UInt32) (actions : List (Action Unit)),
      (∀ i, (InitialSize i).toNat ≤ maxLength) → (∀ i, BlockSize i ≠ 0) →
      Within (next step) InDomain (start InitialSize BlockSize) actions →
      ∃ s, trace step (start InitialSize BlockSize) actions =
          some ((collect Action.spec (fun _ ↦ []) actions).1, s) ∧
        ∀ i, (s i).content = (collect Action.spec (fun _ ↦ []) actions).2 i ∧
          (s i).m_position + (s i).m_len ≤ (s i).m_bytes.length := by
  intro h
  obtain ⟨s, hs, hcontent⟩ := h (fun _ ↦ 8) (fun _ ↦ 8) shiftedActions (by decide) (by decide)
    (by decide +kernel)
  have hshifted := content_shifted.1
  rw [hs, Option.map_some, (hcontent ()).1, content_shifted.2] at hshifted
  exact absurd hshifted (by decide)

/-- **No copy leaves an array**, and no content either, wherever the arrays grow. -/
theorem stays_inside {InitialSize BlockSize : ι → UInt32}
    (hsize : ∀ i, (InitialSize i).toNat ≤ maxLength) (hblock : ∀ i, BlockSize i ≠ 0)
    (actions : List (Action ι))
    (h : Within (next step) (fun s a ↦ InDomain s a ∧ OnQueue CUQueue.Allocates s a)
      (start InitialSize BlockSize) actions) :
    ∃ rs s, trace step (start InitialSize BlockSize) actions = some (rs, s) ∧
      ∀ i, (s i).m_position + (s i).m_len ≤ (s i).m_bytes.length := by
  have hnew : ∀ i, (start InitialSize BlockSize i).Sound :=
    fun i ↦ (CUQueue.new_holds (hsize i) (hblock i)).toSound
  have hsim : ∀ (s : ι → CUQueue) (t : Unit) (a : Action ι), (∀ i, (s i).Sound) →
      InDomain s a ∧ OnQueue CUQueue.Allocates s a →
      ∃ b s' t', step s a = some (b, s') ∧ True ∧ ∀ i, (s' i).Sound := fun s t a hR hC ↦ by
    cases a with
    | on i op =>
      obtain ⟨r, q', hq', hsound⟩ := CUQueue.perform_sound (hR i) op hC.1 hC.2
      refine ⟨r, Function.update s i q', (), ?_, trivial,
        update_related (R := fun q _ ↦ q.Sound) (t := fun _ ↦ []) (u := []) hR hsound⟩
      show ((s i).perform op).map _ = _
      rw [hq', Option.map_some]
    | swap i j =>
      have hfirst := update_related (R := fun q _ ↦ q.Sound) (t := fun _ ↦ []) (u := []) (i := i)
        hR (hR j)
      have hboth := update_related (R := fun q _ ↦ q.Sound) (t := fun _ ↦ []) (u := []) (i := j)
        (fun k ↦ hfirst k) (hR i)
      exact ⟨.done, _, (), rfl, trivial, hboth⟩
  obtain ⟨rs, s, _, hs, _, hsound⟩ :=
    trace_simulates (t := ()) hsim actions hnew h
  exact ⟨rs, s, hs, fun i ↦ (hsound i).fits⟩

theorem stays_inside_shifted :
    ∃ rs s, trace step (start (fun _ ↦ 8) fun _ ↦ 8) shiftedActions = some (rs, s) ∧
      ∀ i, (s i).m_position + (s i).m_len ≤ (s i).m_bytes.length :=
  stays_inside (by decide) (by decide) shiftedActions (by decide +kernel)

end Family

end SocketPro.CSharp
