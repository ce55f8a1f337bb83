import SocketPro.Memory.ByteList

/-!
# Sequences of buffer operations

A family of buffers under any sequence of operations and swaps. The arguments are those the buffers
are meant for: within the bounds the source asserts, and with sizes that stay below `2 ^ 31`
(`InDomain`). `Guarded` leaves out the two sums that wrap.

**Result.** `buffer_is_byte_list`: within both conditions no copy leaves its block, every operation
returns what it returns on byte lists, and the contents are those of the byte lists afterwards. With
the default block size no insert is left out (`noWrap_of_dvd`).

**Where it fails.** `read_outside`: a `Pop` into a buffer from a position near `2 ^ 32` does not
throw, and reads outside of the block.
-/

namespace SocketPro.Memory

open Block Bytes Machine

namespace CUQueue

/-- The arguments are within the asserted bounds, and the resulting size is below `2 ^ 31`. -/
def InDomain (q : CUQueue) : Op → Prop
  | .push buffer => q.m_nSize + buffer.length < 2 ^ 31
  | .insert buffer _ => q.m_nSize + buffer.length < 2 ^ 31
  | .pop _ _ => True
  | .popInto _ _ => True
  | .replace pos len buffer =>
    pos.toNat + len.toNat ≤ q.m_nSize ∧ q.m_nSize - len.toNat + buffer.length < 2 ^ 31
  | .setHeadPosition => True
  | .setHeadPositionTo headPos =>
    headPos.toNat ≤ q.m_nHeadPos ∧ q.m_nSize + (q.m_nHeadPos - headPos.toNat) < 2 ^ 31
  | .setSize size _ => size.toNat ≤ q.m_nSize
  | .reallocBuffer size => q.m_nSize ≤ size.toNat
  | .setNull => q.m_nSize < 2 ^ 31

/-- No capacity wraps, and no sum of length and position wraps below the size. -/
def Guarded (windows : Bool) (q : CUQueue) : Op → Prop
  | .push buffer => q.NoWrap buffer.length
  | .insert buffer _ => q.NoWrap buffer.length
  | .popInto len position => ¬ q.Wraps len.toNat position.toNat
  | .replace _ len buffer => q.NoWrap (buffer.length - len.toNat)
  | .setNull => q.NoWrap (wchar windows)
  | _ => True

instance (q : CUQueue) (op : Op) : Decidable (q.InDomain op) := by
  cases op <;> unfold InDomain <;> infer_instance

instance (windows : Bool) (q : CUQueue) (op : Op) : Decidable (q.Guarded windows op) := by
  cases op <;> unfold Guarded <;> infer_instance

variable {q : CUQueue} {t : ByteList} {windows : Bool}

/-- The specification, for an operation that throws nothing. -/
theorem spec_of_prefix {op : Op} {u : ByteList} {r : Result} {gone : List UInt8}
    (hop : t.perform op = (r, u)) (hgone : gone <+: u.gone)
    (hr : ∀ e, r ≠ .thrown e := by simp) :
    t.Spec op r ⟨gone, u.content⟩ where
  result := by rw [hop]
  content := by rw [hop]
  gone := by rwa [hop]
  thrown e he := absurd he (hr e)

/-- **One operation** returns what it returns on a byte list, and leaves a buffer that holds the
resulting list. -/
theorem perform_refines (h : q.Holds t) (op : Op) (hdom : q.InDomain op)
    (hguard : q.Guarded windows op) :
    ∃ r q' t', q.perform windows op = some (r, q') ∧ t.Spec op r t' ∧ q'.Holds t' := by
  have hsize := h.size
  cases op with
  | push buffer =>
    have hlt : q.m_nSize + buffer.length < 2 ^ 31 := hdom
    obtain ⟨q', gone', hq', hgone', hholds'⟩ := insert_holds h UQUEUE_END_POSTION
      (by omega : buffer.length + q.m_nSize < 0xf0000000) hguard
    have hend : min UQUEUE_END_POSTION t.content.length = t.content.length :=
      Nat.min_eq_right (by rw [← hsize, UQUEUE_END_POSTION]; omega)
    rw [hend, insertAt_length] at hholds'
    exact ⟨.done, q', _, congrArg (Option.map (Result.done, ·)) hq',
      spec_of_prefix rfl hgone', hholds'⟩
  | insert buffer position =>
    have hlt : q.m_nSize + buffer.length < 2 ^ 31 := hdom
    obtain ⟨q', gone', hq', hgone', hholds'⟩ := insert_holds h position.toNat
      (by omega : buffer.length + q.m_nSize < 0xf0000000) hguard
    exact ⟨.done, q', _, congrArg (Option.map (Result.done, ·)) hq',
      spec_of_prefix rfl hgone', hholds'⟩
  | pop len position =>
    obtain ⟨q', gone', hq', hgone', hholds'⟩ := pop_holds h len.toNat position.toNat
    exact ⟨_, q', _, congrArg (Option.map fun r : ℕ × CUQueue ↦ (Result.count r.1, r.2)) hq',
      spec_of_prefix rfl hgone', hholds'⟩
  | popInto len position =>
    obtain ⟨r, q', gone', hq', hcases⟩ := popInto_holds h hguard
    by_cases hshort : t.content.length < len.toNat + position.toNat
    · rw [if_pos hshort] at hcases
      obtain ⟨rfl, rfl, -⟩ := hcases
      have hop : t.perform (.popInto len position) = (.thrown .remainingData, t) := if_pos hshort
      exact ⟨_, _, t, hq', ⟨by rw [hop], by rw [hop], by rw [hop], fun _ _ ↦ rfl⟩, h⟩
    · rw [if_neg hshort] at hcases
      obtain ⟨rfl, hgone', hholds'⟩ := hcases
      exact ⟨_, q', _, hq', spec_of_prefix (if_neg hshort) hgone', hholds'⟩
  | replace pos len buffer =>
    obtain ⟨hle, hlt⟩ := hdom
    obtain ⟨q', gone', hq', hgone', hholds'⟩ := replace_holds h hle (by omega) hguard
    exact ⟨.done, q', _, congrArg (Option.map (Result.done, ·)) hq',
      spec_of_prefix rfl hgone', hholds'⟩
  | setHeadPosition =>
    obtain ⟨q', hq', hholds', -⟩ := setHeadPosition_holds h
    exact ⟨.done, q', _, congrArg (Option.map (Result.done, ·)) hq',
      spec_of_prefix rfl List.nil_prefix, hholds'⟩
  | setHeadPositionTo headPos =>
    exact ⟨.done, _, _, rfl, spec_of_prefix rfl List.prefix_rfl,
      setHeadPositionTo_holds h hdom.1⟩
  | setSize size adjustHeadPos =>
    obtain ⟨q', gone', hq', hgone', hholds'⟩ := setSize_holds h hdom adjustHeadPos
    exact ⟨.done, q', _, congrArg (Option.map (Result.done, ·)) hq',
      spec_of_prefix rfl hgone', hholds'⟩
  | reallocBuffer size =>
    obtain ⟨q', hq', hholds'⟩ := reallocBuffer_holds h hdom size.toNat_lt
    exact ⟨.done, q', _, congrArg (Option.map (Result.done, ·)) hq',
      spec_of_prefix rfl List.nil_prefix, hholds'⟩
  | setNull =>
    obtain ⟨q', gone', hq', hgone', hholds'⟩ := setNull_holds h windows hdom hguard
    exact ⟨.done, q', _, congrArg (Option.map (Result.done, ·)) hq',
      spec_of_prefix rfl hgone', hholds'⟩

end CUQueue

/-! ### Several buffers -/

variable {ι : Type} [DecidableEq ι]

/-- Buffers that have just been constructed. -/
def start (maxLen blockSize : ι → UInt32) (i : ι) : CUQueue := .new (maxLen i) (blockSize i)

/-- What an action may return and leave. -/
def Action.Spec (t : ι → ByteList) : Action ι → Result → (ι → ByteList) → Prop
  | .on i op, r, t' => ∃ u, (t i).Spec op r u ∧ t' = Function.update t i u
  | .swap i j, r, t' =>
    r = .done ∧ t' = Function.update (Function.update t i (t j)) j (t i)

/-- The arguments of an action are in the domain. -/
def InDomain (s : ι → CUQueue) : Action ι → Prop
  | .on i op => (s i).InDomain op
  | .swap _ _ => True

/-- No sum wraps in an action. -/
def Guarded (windows : Bool) (s : ι → CUQueue) : Action ι → Prop
  | .on i op => (s i).Guarded windows op
  | .swap _ _ => True

omit [DecidableEq ι] in
instance (s : ι → CUQueue) (a : Action ι) : Decidable (InDomain s a) := by
  cases a <;> unfold InDomain <;> infer_instance

omit [DecidableEq ι] in
instance (windows : Bool) (s : ι → CUQueue) (a : Action ι) : Decidable (Guarded windows s a) := by
  cases a <;> unfold Guarded <;> infer_instance

/-- Buffer by buffer, the block holds the list. -/
def Hold (s : ι → CUQueue) (t : ι → ByteList) : Prop := ∀ i, (s i).Holds (t i)

variable {s : ι → CUQueue} {t : ι → ByteList} {windows : Bool}

theorem Hold.update {i : ι} {q : CUQueue} {u : ByteList} (h : Hold s t) (hq : q.Holds u) :
    Hold (Function.update s i q) (Function.update t i u) := by
  intro j
  by_cases hj : j = i
  · subst hj
    rwa [Function.update_self, Function.update_self]
  · rw [Function.update_of_ne hj, Function.update_of_ne hj]
    exact h j

theorem step_refines (h : Hold s t) (a : Action ι) (hdom : InDomain s a)
    (hguard : Guarded windows s a) :
    ∃ r s' t', step windows s a = some (r, s') ∧ a.Spec t r t' ∧ Hold s' t' := by
  cases a with
  | on i op =>
    obtain ⟨r, q', u, hq', hspec, hholds'⟩ := CUQueue.perform_refines (h i) op hdom hguard
    refine ⟨r, Function.update s i q', _, ?_, ⟨u, hspec, rfl⟩, h.update hholds'⟩
    show ((s i).perform windows op).map _ = _
    rw [hq', Option.map_some]
  | swap i j => exact ⟨.done, _, _, rfl, ⟨rfl, rfl⟩, (h.update (h j)).update (h i)⟩

/-- **The buffer is a byte list.** From buffers of any sizes, every sequence of operations in the
domain that wraps no sum stays within the blocks and returns what it returns on byte lists. The
contents are those of the lists, they lie within the capacities, and an empty content starts at the
beginning of its block. -/
theorem buffer_is_byte_list (windows : Bool) (maxLen blockSize : ι → UInt32)
    (actions : List (Action ι))
    (h : Within (next (step windows)) (fun s a ↦ InDomain s a ∧ Guarded windows s a)
      (start maxLen blockSize) actions) :
    ∃ rs s t, trace (step windows) (start maxLen blockSize) actions = some (rs, s) ∧
      Steps (fun t a r t' ↦ Action.Spec t a r t') (fun _ ↦ ⟨[], []⟩) actions rs t ∧
      ∀ i, (s i).content = (t i).content.map some ∧ (s i).m_nSize = (t i).content.length ∧
        (s i).m_nHeadPos + (s i).m_nSize ≤ (s i).m_nMaxBuffer ∧
        ((s i).m_nSize = 0 → (s i).m_nHeadPos = 0) := by
  have hnew : Hold (start maxLen blockSize) fun _ ↦ ⟨[], []⟩ :=
    fun i ↦ CUQueue.new_holds (maxLen i) (blockSize i)
  obtain ⟨rs, s, t, hs, ht, hholds⟩ := trace_simulates
    (fun _ _ a hR hC ↦ step_refines hR a hC.1 hC.2) actions hnew h
  exact ⟨rs, s, t, hs, ht, fun i ↦
    ⟨(hholds i).content_eq, (hholds i).size, (hholds i).fits, (hholds i).empty⟩⟩

/-- Two buffers of eight bytes: bytes are pushed, popped and taken back, inserted into the middle of
a block that is too small for them, and the buffers swapped. -/
def someActions : List (Action Bool) :=
  [.on true (.push [1, 2, 3, 4, 5, 6]), .on true (.popInto 2 0), .on true (.insert [7, 8] 1),
    .on true (.setHeadPositionTo 0), .on true (.insert [9, 10, 11, 12] 2), .on true .setNull,
    .swap true false, .on false (.replace 1 2 [13]), .on false (.popInto 4 8)]

theorem someActions_within : Within (next (step false))
    (fun s a ↦ InDomain s a ∧ Guarded false s a) (start (fun _ ↦ 8) fun _ ↦ 0) someActions := by
  decide +kernel

theorem buffer_is_byte_list_someActions :
    ∃ rs s t, trace (step false) (start (fun _ ↦ 8) fun _ ↦ 0) someActions = some (rs, s) ∧
      Steps (fun t a r t' ↦ Action.Spec t a r t') (fun _ ↦ ⟨[], []⟩) someActions rs t ∧
      ∀ i, (s i).content = (t i).content.map some ∧ (s i).m_nSize = (t i).content.length ∧
        (s i).m_nHeadPos + (s i).m_nSize ≤ (s i).m_nMaxBuffer ∧
        ((s i).m_nSize = 0 → (s i).m_nHeadPos = 0) :=
  buffer_is_byte_list false (fun _ ↦ 8) (fun _ ↦ 0) someActions someActions_within

/-- One byte from position `2 ^ 32 - 1` of a buffer with two bytes: the sum is `0`, nothing is
thrown, and the copy leaves the block. On the byte list the operation throws. -/
theorem read_outside :
    Within (next (step false)) InDomain (start (fun _ : Unit ↦ 8) fun _ ↦ 0)
        [.on () (.push [1, 2]), .on () (.popInto 1 0xffffffff)] ∧
      (ByteList.mk [] [1, 2]).perform (.popInto 1 0xffffffff) =
        (.thrown .remainingData, ⟨[], [1, 2]⟩) ∧
      trace (step false) (start (fun _ : Unit ↦ 8) fun _ ↦ 0)
        [.on () (.push [1, 2]), .on () (.popInto 1 0xffffffff)] = none := by
  decide +kernel

end SocketPro.Memory
