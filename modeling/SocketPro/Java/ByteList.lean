import SocketPro.Java.CUQueue

/-!
# The Java `CUQueue` as a byte list

`Op.spec` says what each operation does to a list of bytes. `Holds q t` says that the content of `q`
is the list `t`, which lies before the limit of the buffer. Nothing is said of the position of the
buffer, which the operations leave in different places.

**Where it fails.** Outside of the reading mode `SetSize` and `Discard` leave the position at the
head, and `Ensure` takes it to the end only if the tail is short: the next bytes are written over
the content (`written_over`). `Realloc` leaves it behind the content in the reading mode, and
`GetBuffer(k)` reads from the head.

* `byteBuffer_is_byte_list` — **within the condition every run is one of byte lists**: each
  operation finds the position and the limit where it expects them.
-/

namespace SocketPro.Java

open Block Bytes Machine Nio Unicode

/-- The result of `LoadBytes` on the list behind the size, and the list it leaves. -/
def bytesSpec (size : ℤ) (t : List UInt8) : Result × List UInt8 :=
  if size = -1 then (.bytes none, t)
  else if t.length < size then (.thrown (.runtime "Invalid data found"), t)
  else if size < 0 then (.thrown .negativeArraySize, t)
  else (.bytes (some (t.take size.toNat)), t.drop size.toNat)

/-- The result of an operation on a byte list, and the list it leaves. -/
def Op.spec (t : List UInt8) : Op → Result × List UInt8
  | .append data => (.done, t ++ data)
  | .pushBytes none _ _ => (.done, t)
  | .pushBytes (some bytes) offset len =>
    if len.toInt ≤ 0 then (.done, t)
    else if bytes.1.length < max offset.toInt 0 + len.toInt then
      (.thrown (.illegalArgument (some "Bad offset or length")), t)
    else (.done, t ++ slice (max offset.toInt 0).toNat len.toInt.toNat bytes.1)
  | .encode s => (.done, t ++ utf16Bytes s)
  | .load n =>
    if t.length < n then (.thrown (.runtime "Invalid data found"), t)
    else (.bytes (some (t.take n)), t.drop n)
  | .loadBytes =>
    if t.length < 4 then (.thrown (.runtime "Invalid data found"), t)
    else bytesSpec (toInt (ofLE (t.take 4))) (t.drop 4)
  | .popBytes size =>
    if size.toInt < 0 then (.bytes none, t)
    else (.bytes (some (t.take size.toInt.toNat)), t.drop size.toInt.toNat)
  | .popBytesTo none _ => (.bytes (some []), t)
  | .popBytesTo (some length) size =>
    (.bytes (some (t.take (min size.toInt.toNat length))), t.drop (min size.toInt.toNat length))
  | .discard len => (.count (min len.toInt t.length), t.drop len.toInt.toNat)
  | .setSize size =>
    if size.toInt < 0 then
      (.thrown (.illegalArgument (some "New size can not be less than 0")), t)
    else (.done, t.take size.toInt.toNat)
  | .realloc _ => (.done, t)
  | .getBuffer offset => (.bytes (some (t.drop offset.toInt.toNat)), t)
  | .getIntenalBuffer => (.bytes (some t), t)
  | .empty => (.done, [])
  | .useBytes none => (.done, [])
  | .useBytes (some bytes) => (.done, bytes.1)
  | .useBytesLen none _ => (.done, [])
  | .useBytesLen (some bytes) len => (.done, bytes.1.take (CUQueue.usedLength bytes len))
  | .useBuffer none _ => (.done, [])
  | .useBuffer (some bytes) len => (.done, bytes.array.take len.toInt.toNat)

/-- The list that a queue is made of. -/
def Constructor.content : Constructor → List UInt8
  | .bytes (some array) => array.1
  | .bytesLen (some array) len => array.1.take (CUQueue.usedLength array len)
  | _ => []

namespace CUQueue

/-! ### The representation -/

/-- The content lies in the buffer, before its limit. -/
structure Sound (q : CUQueue) : Prop where
  fits : q.m_position + q.m_len ≤ q.m_bytes.limit
  block_pos : 0 < q.m_blockSize
  block_lt : q.m_blockSize < intBound

/-- The queue holds the list. -/
structure Holds (q : CUQueue) (t : List UInt8) : Prop extends q.Sound where
  content : q.content = t

/-- The next bytes that are read are those of the content. -/
def Readable (q : CUQueue) : Prop := q.m_bReading = true → q.m_bytes.position = q.m_position

/-- What can be read is the content and no more. -/
def Exposed (q : CUQueue) : Prop :=
  q.m_bReading = true →
    q.m_bytes.position = q.m_position ∧ q.m_bytes.limit = q.m_position + q.m_len

instance (q : CUQueue) : Decidable q.Readable := by
  unfold Readable
  infer_instance

instance (q : CUQueue) : Decidable q.Exposed := by
  unfold Exposed
  infer_instance

variable {q : CUQueue} {t : List UInt8} {k n : ℕ}

theorem Sound.fits_capacity (h : q.Sound) : q.m_position + q.m_len ≤ q.m_bytes.capacity :=
  h.fits.trans q.m_bytes.limit_le

theorem Sound.length_content (h : q.Sound) : q.content.length = q.m_len :=
  length_slice h.fits_capacity

theorem Holds.length (h : q.Holds t) : t.length = q.m_len := by
  rw [← h.content, h.length_content]

/-- The queue without its content, with a buffer of any kind. -/
theorem holds_nil (h : q.Sound) {b : ByteBuffer} {r : Bool} :
    CUQueue.Holds ⟨q.m_blockSize, b, 0, r, 0⟩ [] where
  fits := Nat.zero_le _
  block_pos := h.block_pos
  block_lt := h.block_lt
  content := slice_zero

/-! ### The buffer -/

theorem position_ok (h : n ≤ q.m_bytes.limit) :
    position n q = .ok () { q with
      m_bytes := { q.m_bytes with position := n, position_le := h } } := by
  rw [position, onBuffer, ByteBuffer.setPosition_eq h]

theorem limit_ok (h : n ≤ q.m_bytes.capacity) :
    limit n q = .ok () { q with m_bytes := { q.m_bytes with
      position := min q.m_bytes.position n
      limit := n
      position_le := Nat.min_le_right _ _
      limit_le := h } } := by
  rw [limit, onBuffer, ByteBuffer.setLimit_eq h]

theorem window_ok (hpos : q.m_position ≤ q.m_bytes.limit)
    (hlen : q.m_position + q.m_len ≤ q.m_bytes.capacity) :
    ∃ b : ByteBuffer, window q = .ok () { q with m_bytes := b } ∧ b.array = q.m_bytes.array ∧
      b.position = q.m_position ∧ b.limit = q.m_position + q.m_len ∧
      b.isDirect = q.m_bytes.isDirect ∧ b.backing = q.m_bytes.backing := by
  let q₁ : CUQueue := { q with
    m_bytes := { q.m_bytes with position := q.m_position, position_le := hpos } }
  have hlimit : limit (q.m_position + q.m_len) q₁ = _ := limit_ok (q := q₁) hlen
  refine ⟨_, (Effect.bind_ok (position_ok hpos)).trans hlimit, rfl, ?_, rfl, rfl, rfl⟩
  exact Nat.min_eq_left (Nat.le_add_right _ _)

/-! ### Making room -/

theorem toInt_of_lt {x : ℤ} (hpos : 0 ≤ x) (hlt : x < intBound) : toInt x = x :=
  Int.bmod_eq_of_le (by omega) (by
    have hbound : (intBound : ℤ) = 2 ^ 31 := rfl
    omega)

/-- The size of `Realloc` is more than what is asked for. -/
theorem lt_roundedSize (h : q.Sound) (n : ℤ) : n < q.roundedSize n ∧ 0 < q.roundedSize n := by
  have hblock : (0 : ℤ) < q.m_blockSize := Int.natCast_pos.2 h.block_pos
  have hlt := Int.lt_ediv_add_one_mul_self (if n ≤ 0 then (DEFAULT_BUFFER_SIZE : ℤ) else n) hblock
  have hdefault : (0 : ℤ) < DEFAULT_BUFFER_SIZE := by decide
  show n < ((if n ≤ 0 then (DEFAULT_BUFFER_SIZE : ℤ) else n) / q.m_blockSize + 1) * q.m_blockSize ∧ _
  split at hlt
  · next hn =>
    rw [roundedSize, if_pos hn]
    omega
  · next hn =>
    rw [roundedSize, if_neg hn]
    omega

/-- The content in a new buffer that is large enough. -/
theorem copyTo_ok (h : q.Sound) {bytes : ByteBuffer} (hlen : q.m_len ≤ bytes.capacity)
    (hpos : bytes.position = 0) (hlimit : bytes.limit = bytes.capacity) :
    ∃ b c : ByteBuffer, copyTo bytes q = .ok b { q with m_bytes := c } ∧
      b.limit = b.capacity ∧ b.capacity = bytes.capacity ∧ slice 0 q.m_len b.array = q.content := by
  by_cases hzero : q.m_len = 0
  · refine ⟨bytes, q.m_bytes, if_pos hzero, hlimit, rfl, ?_⟩
    rw [content, hzero, slice_zero, slice_zero]
  · have hmin : min q.m_len bytes.capacity = q.m_len := Nat.min_eq_left hlen
    obtain ⟨c, hwindow, harray, hcpos, hclimit, _⟩ :=
      window_ok ((Nat.le_add_right _ _).trans h.fits) h.fits_capacity
    have hremaining : c.remaining = q.content := by
      rw [ByteBuffer.remaining, hcpos, hclimit, harray, Nat.add_sub_cancel_left, content]
    have hroom : bytes.position + c.remaining.length ≤ bytes.limit := by
      rw [hremaining, h.length_content, hpos, hlimit, Nat.zero_add]
      exact hlen
    obtain ⟨b, hput, hbarray, hbpos, hblimit, hbcap, _⟩ := ByteBuffer.put_eq hroom
    refine ⟨b, c, ?_, by rw [hblimit, hlimit, hbcap], hbcap, ?_⟩
    · rw [copyTo, if_neg hzero]
      refine (Effect.bind_ok rfl).trans ?_
      simp only [hmin]
      refine (Effect.bind_ok hwindow).trans ?_
      simp only [hput]
    · rw [hbarray, hpos, hremaining, ← h.length_content]
      exact slice_overwrite (Nat.zero_le _)

/-- `Realloc` asks for a buffer that there can be. -/
def Allocates (q : CUQueue) (newMaxSize : ℤ) : Prop := q.roundedSize newMaxSize < intBound

/-- **`Realloc`** moves the content to the front of a larger buffer. -/
theorem realloc_ok (h : q.Sound) {size : ℤ} (hsize : q.m_len ≤ size) (halloc : q.Allocates size) :
    ∃ b : ByteBuffer, Realloc size q = .ok () { q with m_bytes := b, m_position := 0 } ∧
      b.limit = b.capacity ∧ size < b.capacity ∧ slice 0 q.m_len b.array = q.content ∧
      (q.m_bReading = false → b.position = q.m_len) ∧ (b.capacity : ℤ) = q.roundedSize size := by
  obtain ⟨hlt, hpos⟩ := lt_roundedSize h size
  obtain ⟨cap, hcap⟩ := Int.eq_ofNat_of_zero_le hpos.le
  have hbound : cap < intBound := by
    have hbound := halloc
    rw [Allocates, hcap] at hbound
    exact Int.ofNat_lt.1 hbound
  have hcapacity : (ByteBuffer.zeros cap hbound).capacity = cap := List.length_replicate
  have hlen : q.m_len ≤ (ByteBuffer.zeros cap hbound).capacity := by omega
  obtain ⟨b, c, hcopy, hlimit, hbcap, hslice⟩ := copyTo_ok h hlen rfl hcapacity.symm
  have hsmall : size < b.capacity := by omega
  have hsize : (b.capacity : ℤ) = cap := by omega
  delta Realloc
  rw [toInt_of_lt hpos.le halloc, hcap, ByteBuffer.allocateDirect_eq hbound]
  by_cases hr : q.m_bReading = true
  · have hstays : q.m_bReading = false → b.position = q.m_len :=
      fun hnot ↦ absurd (hr.symm.trans hnot) (by decide)
    refine ⟨b, ?_, hlimit, hsmall, hslice, hstays, hsize⟩
    refine (Effect.bind_ok hcopy).trans ((Effect.bind_ok rfl).trans ?_)
    exact if_pos hr
  · have hpos : q.m_len ≤ b.limit := by omega
    refine ⟨{ b with position := q.m_len, position_le := hpos }, ?_, hlimit, hsmall, hslice,
      fun _ ↦ rfl, hsize⟩
    refine (Effect.bind_ok hcopy).trans ((Effect.bind_ok rfl).trans ((if_neg hr).trans ?_))
    exact position_ok (q := { q with m_bytes := b, m_position := 0 }) hpos

/-- `Ensure` has to ask for a larger buffer. -/
def Grows (q : CUQueue) (n : ℕ) : Prop :=
  q.getTailSize ≤ n ∧ (q.m_bytes.capacity : ℤ) - q.m_len ≤ n

/-- It asks for one that there can be. -/
def Fits (q : CUQueue) (n : ℕ) : Prop := q.Grows n → q.Allocates (q.m_bytes.capacity + n)

/-- The place where `n` bytes are written is the end of the content, at least after `Ensure`. -/
def Writes (q : CUQueue) (n : ℕ) : Prop :=
  q.m_bReading = true ∨ q.getTailSize ≤ n ∨
    q.m_bytes.position = q.m_position + q.m_len ∧ q.m_position + q.m_len + n ≤ q.m_bytes.limit

instance (q : CUQueue) (size : ℤ) : Decidable (q.Allocates size) := Int.decLt _ _

instance (q : CUQueue) (n : ℕ) : Decidable (q.Grows n) := by
  unfold Grows
  infer_instance

instance (q : CUQueue) (n : ℕ) : Decidable (q.Fits n) := by
  unfold Fits
  infer_instance

instance (q : CUQueue) (n : ℕ) : Decidable (q.Writes n) := by
  unfold Writes
  infer_instance

/-- The end of the content is where the next bytes are written, and there is room for `n`. -/
def Ready (q : CUQueue) (n : ℕ) : Prop :=
  q.m_bytes.position = q.m_position + q.m_len ∧ q.m_position + q.m_len + n ≤ q.m_bytes.limit

theorem stopReading_ok (h : q.Sound) :
    ∃ b : ByteBuffer, stopReading q = .ok () { q with m_bytes := b, m_bReading := false } ∧
      b.array = q.m_bytes.array ∧ q.m_position + q.m_len ≤ b.limit ∧
      (q.m_bReading = true → b.position = q.m_position + q.m_len ∧ b.limit = b.capacity) ∧
      (q.m_bReading = false → b = q.m_bytes) := by
  by_cases hr : q.m_bReading = true
  · let q₁ : CUQueue := { q with
      m_bytes := { q.m_bytes with position := q.m_position + q.m_len, position_le := h.fits } }
    let b : ByteBuffer := { q.m_bytes with
      position := min (q.m_position + q.m_len) q.m_bytes.capacity
      limit := q.m_bytes.capacity
      position_le := Nat.min_le_right _ _
      limit_le := Nat.le_refl _ }
    have hlimit : limit q.m_bytes.capacity q₁ = .ok () { q₁ with m_bytes := b } :=
      limit_ok (q := q₁) (Nat.le_refl _)
    refine ⟨b, ?_, rfl, h.fits_capacity, fun _ ↦ ⟨Nat.min_eq_left h.fits_capacity, rfl⟩,
      fun hnot ↦ absurd (hr.symm.trans hnot) (by decide)⟩
    rw [stopReading, if_pos hr]
    exact (Effect.bind_ok (position_ok h.fits)).trans (Effect.bind_ok hlimit)
  · have hfalse : q.m_bReading = false := Bool.eq_false_iff.2 hr
    refine ⟨q.m_bytes, ?_, rfl, h.fits, fun htrue ↦ absurd htrue hr, fun _ ↦ rfl⟩
    rw [stopReading, if_neg hr, ← hfalse]

theorem makeRoom_ok (h : q.Sound) (hr : q.m_bReading = false) (hfits : q.Fits n) :
    ∃ q', makeRoom n q = .ok () q' ∧ q'.Sound ∧ q'.content = q.content ∧ q'.m_len = q.m_len ∧
      (q.getTailSize ≤ n → q'.Ready n) ∧ (¬ q.getTailSize ≤ n → q' = q) := by
  have hcapacity := h.fits_capacity
  by_cases htail : q.getTailSize ≤ n
  · rw [makeRoom, if_pos htail]
    by_cases hroom : (n : ℤ) < q.m_bytes.capacity - q.m_len
    · -- the content is moved to the front
      have hpos : q.m_position ≤ q.m_bytes.limit := (Nat.le_add_right _ _).trans h.fits
      let b : ByteBuffer := { q.m_bytes with position := q.m_position, position_le := hpos }
      have hlen : q.m_len ≤ b.compact.limit := (Nat.le_add_left _ _).trans hcapacity
      let q₁ : CUQueue := { q with m_bytes := b.compact, m_position := 0 }
      refine ⟨{ q₁ with m_bytes := { b.compact with position := q.m_len, position_le := hlen } },
        ?_, ⟨?_, h.block_pos, h.block_lt⟩, ByteBuffer.slice_compact (b := b) h.fits, rfl,
        fun _ ↦ ⟨(Nat.zero_add _).symm, ?_⟩, fun hnot ↦ absurd htail hnot⟩
      · rw [if_pos hroom]
        exact (Effect.bind_ok (position_ok hpos)).trans
          ((Effect.bind_ok rfl).trans (position_ok (q := q₁) hlen))
      · exact (Nat.zero_add _).trans_le hlen
      · show 0 + q.m_len + n ≤ q.m_bytes.capacity
        omega
    · have halloc := hfits ⟨htail, not_lt.1 hroom⟩
      have hsize : (q.m_bytes.capacity : ℤ) + n < intBound :=
        (lt_roundedSize h _).1.trans halloc
      obtain ⟨b, hb, hlimit, hsmall, hslice, hpos, _⟩ := realloc_ok h (by omega) halloc
      refine ⟨{ q with m_bytes := b, m_position := 0 }, ?_, ⟨?_, h.block_pos, h.block_lt⟩, hslice,
        rfl, fun _ ↦ ⟨?_, ?_⟩, fun hnot ↦ absurd htail hnot⟩
      · rw [if_neg hroom, toInt_of_lt (by omega) hsize, hb]
      · show 0 + q.m_len ≤ b.limit
        omega
      · exact (hpos hr).trans (Nat.zero_add _).symm
      · show 0 + q.m_len + n ≤ b.limit
        omega
  · exact ⟨q, if_neg htail, h, rfl, rfl, fun hless ↦ absurd hless htail, fun _ ↦ rfl⟩

/-- **`Ensure`** keeps the content, and makes a queue ready where what is written comes behind. -/
theorem ensure_ok (h : q.Sound) (hfits : q.Fits n) :
    ∃ q', Ensure n q = .ok () q' ∧ q'.Sound ∧ q'.content = q.content ∧ q'.m_len = q.m_len ∧
      (q.Writes n → q'.Ready n) := by
  obtain ⟨b, hstop, harray, hlimit, hreading, hwriting⟩ := stopReading_ok h
  have hcapacity : b.capacity = q.m_bytes.capacity := congrArg List.length harray
  let q₁ : CUQueue := { q with m_bytes := b, m_bReading := false }
  have hsound : q₁.Sound := ⟨hlimit, h.block_pos, h.block_lt⟩
  have htail : q₁.getTailSize = q.getTailSize := by
    show (b.capacity : ℤ) - _ - _ = _
    rw [hcapacity, getTailSize]
  have hfits₁ : q₁.Fits n := fun hgrows ↦ by
    have hcap : q₁.m_bytes.capacity = q.m_bytes.capacity := hcapacity
    rw [Grows, htail, hcap] at hgrows
    show q.roundedSize (b.capacity + n) < intBound
    rw [hcapacity]
    exact hfits hgrows
  obtain ⟨q', hroom, hsound', hcontent, hlen, hready, hsame⟩ := makeRoom_ok hsound rfl hfits₁
  refine ⟨q', (Effect.bind_ok hstop).trans hroom, hsound', hcontent.trans ?_, hlen, fun hwrites ↦ ?_⟩
  · show slice q.m_position q.m_len b.array = _
    rw [harray, content]
  · by_cases hless : q₁.getTailSize ≤ n
    · exact hready hless
    · -- the content has not been moved
      rw [hsame hless]
      by_cases hr : q.m_bReading = true
      · obtain ⟨hpos, hlim⟩ := hreading hr
        have hmore := not_le.1 hless
        rw [htail, getTailSize, ← hcapacity, ← hlim] at hmore
        refine ⟨hpos, ?_⟩
        show q.m_position + q.m_len + n ≤ b.limit
        omega
      · obtain rfl := hwriting (Bool.eq_false_iff.2 hr)
        rcases hwrites with htrue | hsmall | hend
        · exact absurd htrue hr
        · exact absurd (htail ▸ hsmall) hless
        · exact hend

/-! ### Writing -/

theorem put_ok {data : List UInt8} (h : q.m_bytes.position + data.length ≤ q.m_bytes.limit) :
    ∃ b : ByteBuffer, put data q = .ok () { q with m_bytes := b } ∧
      b.array = overwrite q.m_bytes.position data q.m_bytes.array ∧ b.limit = q.m_bytes.limit := by
  obtain ⟨b, hput, harray, _, hlimit, _⟩ := ByteBuffer.put_eq h
  refine ⟨b, ?_, harray, hlimit⟩
  rw [put, onBuffer, hput]

/-- Bytes that are written where the queue is ready come behind the content. -/
theorem written_holds (h : q.Sound) {data : List UInt8} (hready : data = [] ∨ q.Ready data.length) :
    ∃ q' : CUQueue, (do
        put data
        assign fun q ↦ { q with m_len := q.m_len + data.length } : Method Unit) q = .ok () q' ∧
      q'.Holds (q.content ++ data) := by
  rcases hready with rfl | ⟨hpos, hroom⟩
  · obtain ⟨b, hput, harray, hlimit⟩ := @put_ok q [] q.m_bytes.position_le
    refine ⟨{ q with m_bytes := b }, (Effect.bind_ok hput).trans rfl,
      ⟨hlimit ▸ h.fits, h.block_pos, h.block_lt⟩, ?_⟩
    rw [content, harray, overwrite_nil, List.append_nil, content]
  · have hend : q.m_bytes.position + data.length ≤ q.m_bytes.limit := hpos ▸ hroom
    obtain ⟨b, hput, harray, hlimit⟩ := put_ok hend
    refine ⟨{ q with m_bytes := b, m_len := q.m_len + data.length },
      (Effect.bind_ok hput).trans rfl, ⟨?_, h.block_pos, h.block_lt⟩, ?_⟩
    · show q.m_position + (q.m_len + data.length) ≤ b.limit
      rw [hlimit, ← Nat.add_assoc]
      exact hroom
    · have hspace := hroom.trans q.m_bytes.limit_le
      obtain ⟨m, hm, _, hslice⟩ := write_behind hspace
      obtain rfl := Option.some.inj ((write_eq_some hspace).symm.trans hm)
      show slice q.m_position (q.m_len + data.length) b.array = _
      rw [harray, hpos, hslice, content]

/-- **`Append`** puts the bytes behind the content. -/
theorem append_holds (h : q.Holds t) {data : List UInt8} (hfits : q.Fits data.length)
    (hwrites : data = [] ∨ q.Writes data.length) :
    ∃ q', Append data q = .ok () q' ∧ q'.Holds (t ++ data) := by
  obtain ⟨q₁, hensure, hsound, hcontent, _, hready⟩ := ensure_ok h.toSound hfits
  obtain ⟨q', hput, hholds⟩ := written_holds hsound (hwrites.imp_right hready)
  rw [hcontent, h.content] at hholds
  exact ⟨q', (Effect.bind_ok hensure).trans hput, hholds⟩

theorem pushBytes_holds (h : q.Holds t) {bytes : Bytes} {offset len : ℤ} (hlen : 0 < len)
    (hin : max offset 0 + len ≤ bytes.1.length) (hfits : q.Fits len.toNat)
    (hwrites : q.Writes len.toNat) :
    ∃ q', PushBytes (some bytes) offset len q = .ok () q' ∧
      q'.Holds (t ++ slice (max offset 0).toNat len.toNat bytes.1) := by
  have hsum : toInt (max offset 0 + len) = max offset 0 + len := by
    have hbytes : (bytes.1.length : ℤ) < intBound := Int.ofNat_lt.2 bytes.2
    exact toInt_of_lt (by omega) (hin.trans_lt hbytes)
  have hslice : (slice (max offset 0).toNat len.toNat bytes.1).length = len.toNat :=
    length_slice (by omega)
  obtain ⟨q₁, hensure, hsound, hcontent, _, hready⟩ := ensure_ok h.toSound hfits
  have hready₁ := hready hwrites
  rw [← hslice] at hready₁
  obtain ⟨q', hput, hholds⟩ := written_holds hsound (.inr hready₁)
  rw [hcontent, h.content] at hholds
  refine ⟨q', ?_, hholds⟩
  rw [PushBytes]
  simp only [hsum]
  rw [if_neg (not_le.2 hlen), if_neg (not_lt.2 hin)]
  refine (Effect.bind_ok hensure).trans ?_
  rw [← hput, hslice]
  simp only [if_pos hin]

theorem encodeUnits_eq : ∀ {n : ℕ} {s : List UInt16}, Paired s → s.length ≤ n → encodeUnits n s = s
  | _, [], _, _ => rfl
  | n, [u], hs, hn => by
    have hroom : ¬ n < 1 := not_lt.2 hn
    rw [encodeUnits, if_neg (not_or.2 ⟨hs, hroom⟩)]
  | n, u :: v :: us, hs, hn => by
    rw [List.length_cons, List.length_cons] at hn
    rw [Paired] at hs
    rw [encodeUnits]
    by_cases hpair : IsHigh u ∧ IsLow v
    · rw [if_pos hpair] at hs ⊢
      rw [if_neg (by omega), encodeUnits_eq hs (by omega)]
    · rw [if_neg hpair] at hs ⊢
      have hroom : ¬ n < 1 := by omega
      rw [if_neg (not_or.2 ⟨hs.1, hroom⟩),
        encodeUnits_eq hs.2 (by rw [List.length_cons]; omega)]

/-- **`Encode`** puts a text in which no surrogate stands alone behind the content. -/
theorem encode_holds (h : q.Holds t) {s : List UInt16} (hpaired : Paired s)
    (hfits : q.Fits (2 * s.length)) (hwrites : s = [] ∨ q.Writes (2 * s.length)) :
    ∃ q', Encode s q = .ok () q' ∧ q'.Holds (t ++ utf16Bytes s) := by
  obtain ⟨q₁, hensure, hsound, hcontent, _, hready⟩ := ensure_ok h.toSound hfits
  have hready₁ : utf16Bytes s = [] ∨ q₁.Ready (utf16Bytes s).length := by
    rw [length_utf16Bytes]
    exact hwrites.imp (fun hnil ↦ by rw [hnil]; rfl) hready
  have hall : encodeUnits ((q₁.m_bytes.limit - q₁.m_bytes.position) / 2) s = s := by
    rcases hwrites with rfl | hwrites
    · exact encodeUnits_eq trivial (Nat.zero_le _)
    · obtain ⟨hpos, hroom⟩ := hready hwrites
      exact encodeUnits_eq hpaired (by omega)
  obtain ⟨q', hput, hholds⟩ := written_holds hsound hready₁
  rw [hcontent, h.content] at hholds
  refine ⟨q', (Effect.bind_ok hensure).trans ?_, hholds⟩
  rw [← hput, length_utf16Bytes]
  show (put (utf16Bytes (encodeUnits ((q₁.m_bytes.limit - q₁.m_bytes.position) / 2) s)) q₁).andThen
    _ = _
  rw [hall]
  rfl

/-! ### Reading -/

/-- The buffer `b` for reading the content of a queue. -/
structure Shows (q : CUQueue) (b : ByteBuffer) : Prop where
  array_eq : b.array = q.m_bytes.array
  backing_eq : b.backing = q.m_bytes.backing
  isDirect_eq : b.isDirect = q.m_bytes.isDirect
  fits : q.m_position + q.m_len ≤ b.limit
  position_eq : q.Readable → b.position = q.m_position
  limit_eq : q.Exposed → b.limit = q.m_position + q.m_len

theorem startReading_ok (h : q.Sound) :
    ∃ b, startReading q = .ok () { q with m_bytes := b, m_bReading := true } ∧ q.Shows b := by
  by_cases hr : q.m_bReading = true
  · refine ⟨q.m_bytes, ?_, rfl, rfl, rfl, h.fits, fun hread ↦ hread hr, fun hshow ↦ (hshow hr).2⟩
    rw [startReading, if_pos hr, ← hr]
  · obtain ⟨b, hwindow, harray, hpos, hlimit, hdirect, hbacking⟩ :=
      window_ok ((Nat.le_add_right _ _).trans h.fits) h.fits_capacity
    refine ⟨b, ?_, harray, hbacking, hdirect, hlimit.ge, fun _ ↦ hpos, fun _ ↦ hlimit⟩
    rw [startReading, if_neg hr]
    exact Effect.bind_ok hwindow

theorem Shows.holds {b : ByteBuffer} (hb : q.Shows b) (h : q.Holds t) {r : Bool} :
    Holds { q with m_bytes := b, m_bReading := r } t where
  fits := hb.fits
  block_pos := h.block_pos
  block_lt := h.block_lt
  content := by
    rw [← h.content]
    show slice q.m_position q.m_len b.array = _
    rw [hb.array_eq, content]

theorem setForReading_ok (h : q.Sound) (hn : n ≤ q.m_len) :
    ∃ b, SetForReading n q = .ok () { q with m_bytes := b, m_bReading := true } ∧ q.Shows b := by
  obtain ⟨b, hstart, hb⟩ := startReading_ok h
  exact ⟨b, (Effect.bind_ok hstart).trans (if_neg (not_lt.2 hn)), hb⟩

theorem setForReading_throws (h : q.Sound) (hn : q.m_len < n) :
    ∃ b, SetForReading n q = .throw (.runtime "Invalid data found")
      { q with m_bytes := b, m_bReading := true } ∧ q.Shows b := by
  obtain ⟨b, hstart, hb⟩ := startReading_ok h
  exact ⟨b, (Effect.bind_ok hstart).trans (if_pos hn), hb⟩

/-- Bytes go from the front of the content. -/
theorem adjustPosition_holds (h : q.Holds t) (hn : n ≤ q.m_len) :
    ∃ q', AdjustPosition n q = .ok () q' ∧ q'.Holds (t.drop n) ∧
      (q.m_bytes.position = q.m_position + n → q'.m_bytes.position = q'.m_position) := by
  by_cases hzero : q.m_len - n = 0
  · refine ⟨_, if_pos hzero, ?_, fun _ ↦ rfl⟩
    rw [List.drop_of_length_le (by rw [h.length]; omega)]
    exact holds_nil h.toSound
  · refine ⟨_, if_neg hzero, ⟨⟨?_, h.block_pos, h.block_lt⟩, ?_⟩, fun hpos ↦ hpos⟩
    · show q.m_position + n + (q.m_len - n) ≤ q.m_bytes.limit
      rw [Nat.add_assoc, Nat.add_sub_cancel' hn]
      exact h.fits
    · rw [← h.content]
      exact drop_slice.symm

theorem get_ok (hin : q.m_bytes.position + n ≤ q.m_bytes.limit)
    (hdata : slice q.m_bytes.position n q.m_bytes.array = t) :
    get n q = .ok t { q with
      m_bytes := { q.m_bytes with position := q.m_bytes.position + n, position_le := hin } } := by
  rw [get, ByteBuffer.get_eq hin, hdata]

/-- **Taking** bytes from where the buffer is read. -/
theorem take_ok (h : q.Holds t) (hn : n ≤ q.m_len)
    (hpos : n = 0 ∨ q.m_bytes.position = q.m_position) :
    ∃ q', take n q = .ok (t.take n) q' ∧ q'.Holds (t.drop n) ∧
      (q.m_bytes.position = q.m_position → q'.m_bytes.position = q'.m_position) := by
  have hin : q.m_bytes.position + n ≤ q.m_bytes.limit := by
    have hle := q.m_bytes.position_le
    have hfits := h.fits
    omega
  let q₁ : CUQueue := { q with
    m_bytes := { q.m_bytes with position := q.m_bytes.position + n, position_le := hin } }
  have hdata : slice q.m_bytes.position n q.m_bytes.array = t.take n := by
    rw [← h.content, content, take_slice hn]
    rcases hpos with rfl | heq
    · rw [slice_zero, slice_zero]
    · rw [heq]
  have hholds : q₁.Holds t := ⟨⟨h.fits, h.block_pos, h.block_lt⟩, h.content⟩
  obtain ⟨q', hadjust, hdrop, hkeep⟩ := adjustPosition_holds hholds hn
  refine ⟨q', ?_, hdrop, fun heq ↦ hkeep ?_⟩
  · exact (Effect.bind_ok (get_ok hin hdata)).trans ((Effect.bind_ok hadjust).trans rfl)
  · show q.m_bytes.position + n = q.m_position + n
    rw [heq]

/-- **`Load`** takes the front of the list. -/
theorem load_ok (h : q.Holds t) (hn : n ≤ q.m_len) (hread : n = 0 ∨ q.Readable) :
    ∃ q', Load n q = .ok (t.take n) q' ∧ q'.Holds (t.drop n) ∧
      (q.Readable → q'.m_bytes.position = q'.m_position) := by
  obtain ⟨b, hset, hb⟩ := setForReading_ok h.toSound hn
  obtain ⟨q', htake, hholds, hkeep⟩ :=
    take_ok (hb.holds h (r := true)) hn (hread.imp_right hb.position_eq)
  exact ⟨q', (Effect.bind_ok hset).trans htake, hholds, fun hr ↦ hkeep (hb.position_eq hr)⟩

theorem load_throws (h : q.Holds t) (hn : q.m_len < n) :
    ∃ q', Load n q = .throw (.runtime "Invalid data found") q' ∧ q'.Holds t := by
  obtain ⟨b, hset, hb⟩ := setForReading_throws h.toSound hn
  exact ⟨_, Effect.bind_throw hset, hb.holds h⟩

/-- A read of no more than the content. -/
theorem load_min (h : q.Holds t) (n : ℕ) (hread : n = 0 ∨ q.m_len = 0 ∨ q.Readable) :
    ∃ q', Load (min n q.m_len) q = .ok (t.take n) q' ∧ q'.Holds (t.drop n) := by
  have hcases : min n q.m_len = 0 ∨ q.Readable := by
    rcases hread with hn | hlen | hr
    · exact .inl (by rw [hn, Nat.zero_min])
    · exact .inl (by rw [hlen, Nat.min_zero])
    · exact .inr hr
  obtain ⟨q', hload, hholds, _⟩ := load_ok h (Nat.min_le_right n q.m_len) hcases
  have htake : t.take (min n q.m_len) = t.take n := by
    rw [← h.length, ← List.take_take, List.take_length]
  have hdrop : t.drop (min n q.m_len) = t.drop n := by
    rcases Nat.le_total n q.m_len with hle | hge
    · rw [Nat.min_eq_left hle]
    · rw [Nat.min_eq_right hge, List.drop_of_length_le h.length.le,
        List.drop_of_length_le (h.length.trans_le hge)]
  rw [htake] at hload
  rw [hdrop] at hholds
  exact ⟨q', hload, hholds⟩

/-- The queue returns what `r` says and then holds the list. -/
def Leads {α : Type} (x : Method α) (f : α → Result) (q : CUQueue) (r : Result × List UInt8) :
    Prop :=
  ∃ q', Method.result x f q = some (r.1, q') ∧ q'.Holds r.2

section Leads

variable {α : Type} {x : Method α} {f : α → Result} {q' : CUQueue} {a : α} {e : Exception}

theorem Leads.of_ok (h : x q = .ok a q') (hholds : q'.Holds t) : Leads x f q (f a, t) :=
  ⟨q', by rw [Method.result, h], hholds⟩

theorem Leads.of_throw (h : x q = .throw e q') (hholds : q'.Holds t) :
    Leads x f q (.thrown e, t) :=
  ⟨q', by rw [Method.result, h], hholds⟩

end Leads

theorem takeBytes_leads (h : q.Holds t) (hpos : q.m_bytes.position = q.m_position) (size : ℤ) :
    Leads (takeBytes size) .bytes q (bytesSpec size t) := by
  rw [bytesSpec, h.length]
  by_cases hnull : size = -1
  · rw [if_pos hnull]
    exact .of_ok (if_pos hnull) h
  rw [if_neg hnull]
  by_cases hlong : (q.m_len : ℤ) < size
  · rw [if_pos hlong]
    exact .of_throw ((if_neg hnull).trans (if_pos hlong)) h
  rw [if_neg hlong]
  by_cases hneg : size < 0
  · rw [if_pos hneg]
    exact .of_throw ((if_neg hnull).trans ((if_neg hlong).trans (if_pos hneg))) h
  rw [if_neg hneg]
  obtain ⟨q', htake, hholds, _⟩ := take_ok h (n := size.toNat) (by omega) (.inr hpos)
  refine .of_ok ?_ hholds
  rw [takeBytes, if_neg hnull, if_neg hlong, if_neg hneg]
  exact (Effect.bind_ok htake).trans rfl

/-- **`LoadBytes`** -/
theorem loadBytes_leads (h : q.Holds t) (hread : q.m_len < 4 ∨ q.Readable) :
    Leads LoadBytes .bytes q (Op.spec t .loadBytes) := by
  rw [Op.spec, h.length]
  by_cases hshort : q.m_len < 4
  · rw [if_pos hshort]
    obtain ⟨q', hload, hholds⟩ := load_throws h hshort
    exact .of_throw (Effect.bind_throw hload) hholds
  · have hr := hread.resolve_left hshort
    rw [if_neg hshort]
    obtain ⟨q₁, hload, hholds, hpos⟩ := load_ok h (not_lt.1 hshort) (.inr hr)
    obtain ⟨q', hresult, hholds'⟩ := takeBytes_leads hholds (hpos hr) (toInt (ofLE (t.take 4)))
    refine ⟨q', ?_, hholds'⟩
    rw [← hresult, Method.result, Method.result, LoadBytes, Effect.bind_ok hload]

/-- `GetBuffer` returns a whole array only where that is the content, and the bytes from the front
only where these are asked for. -/
def Gets (q : CUQueue) (offset : ℤ) : Prop :=
  0 < q.m_len ∧ (q.m_len : ℤ) ≤ offset ∨
    (offset ≤ 0 ∨ q.m_len = 0) ∧
      if q.m_bytes.isDirect = true then q.Readable else q.m_bytes.backing.length = q.m_len

instance (q : CUQueue) (offset : ℤ) : Decidable (q.Gets offset) := by
  unfold Gets
  infer_instance

/-- Content that is as long as the array is all of it. -/
theorem backing_eq (h : q.Sound) (hall : q.m_bytes.backing.length = q.m_len) :
    q.m_bytes.backing = q.content := by
  have hfits := h.fits_capacity
  have hcap : q.m_bytes.capacity = q.m_bytes.array.length := rfl
  rw [ByteBuffer.backing, List.length_append, List.length_append] at hall
  have hbefore : q.m_bytes.before = [] := List.length_eq_zero_iff.1 (by omega)
  have hbehind : q.m_bytes.behind = [] := List.length_eq_zero_iff.1 (by omega)
  have hpos : q.m_position = 0 := by omega
  have hlen : q.m_len = q.m_bytes.array.length := by omega
  rw [ByteBuffer.backing, hbefore, hbehind, List.nil_append, List.append_nil, content, hpos, hlen,
    slice_all]

/-- The content is read and not taken, or the array is returned. -/
theorem peek_ok (h : q.Holds t)
    (hkind : if q.m_bytes.isDirect = true then q.m_len = 0 ∨ q.m_bytes.position = q.m_position
      else q.m_bytes.backing.length = q.m_len) :
    ∃ q', peek 0 q.m_len q = .ok t q' ∧ q'.Holds t := by
  by_cases hdirect : q.m_bytes.isDirect = true
  · rw [if_pos hdirect] at hkind
    rw [peek, if_pos (.inr hdirect)]
    by_cases hlen : 0 < q.m_len
    · have hpos := hkind.resolve_left (Nat.ne_of_gt hlen)
      have hin : q.m_bytes.position + q.m_len ≤ q.m_bytes.limit := hpos ▸ h.fits
      let q₁ : CUQueue := { q with m_bytes := { q.m_bytes with
        position := q.m_bytes.position + q.m_len, position_le := hin } }
      have hdata : slice q.m_bytes.position q.m_len q.m_bytes.array = t := by
        rw [hpos, ← h.content, content]
      have hback : q.m_position ≤ q₁.m_bytes.limit := (Nat.le_add_right _ _).trans h.fits
      refine ⟨{ q₁ with
          m_bytes := { q₁.m_bytes with position := q.m_position, position_le := hback } },
        ?_, ⟨⟨h.fits, h.block_pos, h.block_lt⟩, h.content⟩⟩
      rw [if_pos hlen]
      refine (Effect.bind_ok (get_ok hin hdata)).trans ?_
      exact (Effect.bind_ok (position_ok (q := q₁) hback)).trans rfl
    · obtain rfl := List.length_eq_zero_iff.1 (h.length.trans (by omega))
      exact ⟨q, if_neg hlen, h⟩
  · rw [if_neg hdirect] at hkind
    have hfalse : ¬ (0 ≠ 0 ∨ q.m_bytes.isDirect = true) :=
      not_or.2 ⟨fun hne ↦ hne rfl, hdirect⟩
    refine ⟨q, ?_, h⟩
    rw [peek, if_neg hfalse, backing_eq h.toSound hkind, h.content]

/-- **`GetBuffer`** -/
theorem getBuffer_ok (h : q.Holds t) {offset : ℤ} (hgets : q.Gets offset) :
    ∃ q', GetBuffer offset q = .ok (t.drop offset.toNat) q' ∧ q'.Holds t := by
  obtain ⟨b, hset, hb⟩ := setForReading_ok h.toSound (Nat.zero_le _)
  have hholds := hb.holds h (r := true)
  rcases hgets with ⟨hpos, hlong⟩ | ⟨hstart, hkind⟩
  · -- there is nothing behind the content
    have hmin : min offset.toNat q.m_len = q.m_len := Nat.min_eq_right (by omega)
    refine ⟨_, (Effect.bind_ok hset).trans ?_, hholds⟩
    rw [hmin, peek, if_pos (.inl (Nat.ne_of_gt hpos)), if_neg (by omega),
      List.drop_of_length_le (by rw [h.length]; omega)]
  · have hmin : min offset.toNat q.m_len = 0 := by omega
    have hdrop : t.drop offset.toNat = t := by
      rcases hstart with hneg | hempty
      · rw [Int.toNat_of_nonpos hneg, List.drop_zero]
      · obtain rfl := List.length_eq_zero_iff.1 (h.length.trans hempty)
        exact List.drop_nil
    have hkind₁ : if b.isDirect = true then q.m_len = 0 ∨ b.position = q.m_position
        else b.backing.length = q.m_len := by
      rw [hb.isDirect_eq, hb.backing_eq]
      split at hkind
      · next hdirect =>
        rw [if_pos hdirect]
        exact .inr (hb.position_eq hkind)
      · next hdirect =>
        rw [if_neg hdirect]
        exact hkind
    obtain ⟨q', hpeek, hholds'⟩ := peek_ok hholds hkind₁
    refine ⟨q', (Effect.bind_ok hset).trans ?_, hholds'⟩
    rw [hmin, hdrop]
    exact hpeek

/-- **`getIntenalBuffer`** -/
theorem getIntenalBuffer_ok (h : q.Holds t) (hexposed : q.Exposed) :
    ∃ q', getIntenalBuffer q = .ok t q' ∧ q'.Holds t := by
  obtain ⟨b, hset, hb⟩ := setForReading_ok h.toSound (Nat.zero_le _)
  have hremaining : b.remaining = t := by
    rw [ByteBuffer.remaining, hb.position_eq fun hr ↦ (hexposed hr).1, hb.limit_eq hexposed,
      hb.array_eq, Nat.add_sub_cancel_left, ← h.content, content]
  refine ⟨{ q with m_bytes := b, m_bReading := true }, (Effect.bind_ok hset).trans ?_, hb.holds h⟩
  show Outcome.ok b.remaining _ = _
  rw [hremaining]

theorem discard_ok (h : q.Holds t) {len : ℤ} (hlen : 0 ≤ len) :
    ∃ q', Discard len q = .ok (min len q.m_len) q' ∧ q'.Holds (t.drop len.toNat) := by
  by_cases hall : (q.m_len : ℤ) - min len q.m_len = 0
  · refine ⟨_, if_pos hall, ?_⟩
    rw [List.drop_of_length_le (by rw [h.length]; omega)]
    exact holds_nil h.toSound
  · obtain ⟨n, rfl⟩ := Int.eq_ofNat_of_zero_le hlen
    have hmin : min (n : ℤ) q.m_len = n := by omega
    have hfits := h.fits
    have hpos : q.m_position + n ≤ q.m_bytes.limit := by omega
    let q₁ : CUQueue := { q with m_len := q.m_len - n, m_position := q.m_position + n }
    have hassign : assign (fun q ↦ { q with
        m_len := ((q.m_len : ℤ) - n).toNat
        m_position := ((q.m_position : ℤ) + n).toNat }) q = .ok () q₁ := by
      have hlenNat : ((q.m_len : ℤ) - n).toNat = q.m_len - n := by omega
      have hposNat : ((q.m_position : ℤ) + n).toNat = q.m_position + n := by omega
      rw [assign, hlenNat, hposNat]
    rw [hmin] at hall
    refine ⟨{ q₁ with
        m_bytes := { q.m_bytes with position := q.m_position + n, position_le := hpos } },
      ?_, ⟨⟨?_, h.block_pos, h.block_lt⟩, ?_⟩⟩
    · rw [Discard]
      simp only [hmin]
      rw [if_neg hall, if_neg (by omega)]
      refine (Effect.bind_ok hassign).trans ?_
      exact (Effect.bind_ok (position_ok (q := q₁) hpos)).trans rfl
    · show q.m_position + n + (q.m_len - n) ≤ q.m_bytes.limit
      omega
    · rw [← h.content]
      exact drop_slice.symm

theorem setSize_ok (h : q.Holds t) {size : ℤ} (hpos : 0 ≤ size) (hsize : size ≤ q.m_len) :
    ∃ q', SetSize size q = .ok () q' ∧ q'.Holds (t.take size.toNat) := by
  have hfits := h.fits_capacity
  have hroom : ¬ (q.m_bytes.capacity : ℤ) - q.m_position < size := by omega
  rw [SetSize, if_neg (not_lt.2 hpos), if_neg hroom]
  by_cases hzero : size = 0
  · refine ⟨_, if_pos hzero, ?_⟩
    rw [hzero]
    exact holds_nil h.toSound
  · let q₁ : CUQueue := { q with m_len := size.toNat }
    obtain ⟨b, hwindow, harray, _, hlimit, _⟩ := window_ok (q := q₁)
      ((Nat.le_add_right _ _).trans h.fits)
      (by show q.m_position + size.toNat ≤ q.m_bytes.capacity; omega)
    refine ⟨_, (if_neg hzero).trans ((Effect.bind_ok rfl).trans hwindow),
      ⟨⟨hlimit.ge, h.block_pos, h.block_lt⟩, ?_⟩⟩
    show slice q.m_position size.toNat b.array = _
    rw [harray, ← h.content]
    exact (take_slice (by omega)).symm

/-! ### Buffers of others -/

theorem usedLength_le (bytes : Bytes) (len : Int32) : usedLength bytes len ≤ bytes.1.length := by
  rw [usedLength]
  split
  · omega
  · exact Nat.le_refl _

/-- A queue whose content is the front of a wrapped array. -/
theorem wrap_holds {bytes : Bytes} {blockSize len : ℕ} {r : Bool} (hpos : 0 < blockSize)
    (hlt : blockSize < intBound) (hlen : len ≤ bytes.1.length) :
    CUQueue.Holds ⟨blockSize, .wrap bytes, len, r, 0⟩ (bytes.1.take len) where
  fits := (Nat.zero_add _).trans_le hlen
  block_pos := hpos
  block_lt := hlt
  content := take_eq_slice.symm

theorem ofSizes_holds (maxSize blockSize : Int32) : (ofSizes maxSize blockSize).Holds [] where
  fits := Nat.zero_le _
  block_pos := by
    show 0 < orDefault _ _
    rw [orDefault]
    split
    · decide
    · omega
  block_lt := orDefault_lt (by decide)
  content := slice_zero

/-- **Every constructor** makes a queue with the content it is given. -/
theorem make_holds (c : Constructor) : c.make.Holds c.content := by
  cases c with
  | default => exact ofSizes_holds 0 0
  | size maxSize => exact ofSizes_holds maxSize 0
  | sizes maxSize blockSize => exact ofSizes_holds maxSize blockSize
  | bytes array =>
    cases array with
    | none => exact ofSizes_holds 0 0
    | some array =>
      have h := @wrap_holds array new.m_blockSize _ false (by decide) (by decide) (Nat.le_refl _)
      rwa [List.take_length] at h
  | bytesLen array len =>
    cases array with
    | none => exact ofSizes_holds 0 0
    | some array => exact wrap_holds (by decide) (by decide) (usedLength_le array len)

theorem useBuffer_ok (h : q.Sound) {bytes : ByteBuffer} {len : ℤ} (hpos : 0 ≤ len)
    (hlen : len ≤ bytes.capacity) :
    ∃ q', UseBuffer (some bytes) len q = .ok () q' ∧ q'.Holds (bytes.array.take len.toNat) := by
  let b : ByteBuffer := { bytes with position := 0, position_le := Nat.zero_le _ }
  have hfits : len.toNat ≤ b.capacity := by
    show len.toNat ≤ bytes.capacity
    omega
  let q₁ : CUQueue := { q with m_position := 0, m_bytes := bytes }
  let q₂ : CUQueue := { q₁ with m_bytes := b }
  let c : ByteBuffer := { b with
    position := 0
    limit := len.toNat
    position_le := Nat.zero_le _
    limit_le := hfits }
  have hlimit : (if len < 0 then .throw (.illegalArgument none) q₂ else limit len.toNat q₂ :
      Outcome Exception CUQueue Unit) = .ok () { q₂ with m_bytes := c } := by
    rw [if_neg (not_lt.2 hpos), limit_ok (q := q₂) hfits]
    simp only [c, q₂, b, Nat.zero_min]
  refine ⟨{ q₂ with m_bytes := c, m_len := len.toNat }, ?_,
    ⟨⟨(Nat.zero_add _).le, h.block_pos, h.block_lt⟩, take_eq_slice.symm⟩⟩
  refine (Effect.bind_ok rfl).trans ?_
  refine (Effect.bind_ok (position_ok (q := q₁) (Nat.zero_le _))).trans ?_
  exact (Effect.bind_ok hlimit).trans rfl

/-! ### One operation -/

/-- The arguments the operations are meant for, with sizes below `2 ^ 31`. -/
def InDomain (q : CUQueue) : Op → Prop
  | .append data => q.m_len + data.length < intBound
  | .pushBytes _ _ len => q.m_len + len.toInt < intBound
  | .encode s => q.m_len + 2 * s.length < intBound
  | .setSize size => size.toInt ≤ q.m_len
  | .realloc newMaxSize => q.m_len ≤ newMaxSize.toInt
  | .useBuffer (some bytes) len => 0 ≤ len.toInt ∧ len.toInt ≤ bytes.capacity
  | _ => True

/-- Every operation works where the one before has left the buffer. -/
def Guarded (q : CUQueue) : Op → Prop
  | .append data => q.Fits data.length ∧ (data = [] ∨ q.Writes data.length)
  | .pushBytes none _ _ => True
  | .pushBytes (some bytes) offset len =>
    len.toInt ≤ 0 ∨ offset.toInt + len.toInt < intBound ∧
      (bytes.1.length < max offset.toInt 0 + len.toInt ∨
        q.Fits len.toInt.toNat ∧ q.Writes len.toInt.toNat)
  | .encode s => Paired s ∧ q.Fits (2 * s.length) ∧ (s = [] ∨ q.Writes (2 * s.length))
  | .load n => q.m_len < n ∨ n = 0 ∨ q.Readable
  | .loadBytes => q.m_len < 4 ∨ q.Readable
  | .popBytes size => size.toInt ≤ 0 ∨ q.m_len = 0 ∨ q.Readable
  | .popBytesTo none _ => True
  | .popBytesTo (some length) size =>
    min size.toInt.toNat length = 0 ∨ q.m_len = 0 ∨ q.Readable
  | .discard len => 0 ≤ len.toInt
  | .realloc newMaxSize => q.Allocates newMaxSize.toInt
  | .getBuffer offset => q.Gets offset.toInt
  | .getIntenalBuffer => q.Exposed
  | _ => True

instance (q : CUQueue) (op : Op) : Decidable (q.InDomain op) := by
  unfold InDomain
  split <;> infer_instance

instance (q : CUQueue) (op : Op) : Decidable (q.Guarded op) := by
  unfold Guarded
  split <;> infer_instance

theorem popBytes_leads (h : q.Holds t) {size : Int32}
    (hread : size.toInt ≤ 0 ∨ q.m_len = 0 ∨ q.Readable) :
    Leads (PopBytes size.toInt) .bytes q (Op.spec t (.popBytes size)) := by
  rw [Op.spec]
  by_cases hneg : size.toInt < 0
  · rw [if_pos hneg]
    exact .of_ok (if_pos hneg) h
  rw [if_neg hneg]
  by_cases hzero : size.toInt = 0
  · have hnone : PopBytes size.toInt q = .ok (some []) q := (if_neg hneg).trans (if_pos hzero)
    rw [hzero, Int.toNat_zero, List.take_zero, List.drop_zero]
    rw [hzero] at hnone
    exact .of_ok hnone h
  · obtain ⟨q', hload, hholds⟩ := load_min h size.toInt.toNat (hread.imp_left (by omega))
    refine .of_ok ?_ hholds
    rw [PopBytes, if_neg hneg, if_neg hzero]
    exact (Effect.bind_ok hload).trans rfl

theorem popBytesTo_leads (h : q.Holds t) {length : ℕ} {size : Int32}
    (hread : min size.toInt.toNat length = 0 ∨ q.m_len = 0 ∨ q.Readable) :
    Leads (PopBytesTo (some length) size.toInt) (fun data ↦ .bytes (some data)) q
      (Op.spec t (.popBytesTo (some length) size)) := by
  rw [Op.spec]
  by_cases hneg : size.toInt ≤ 0
  · rw [Int.toNat_of_nonpos hneg, Nat.zero_min]
    exact .of_ok (if_pos hneg) h
  · obtain ⟨q', hload, hholds⟩ := load_min h (min size.toInt.toNat length) hread
    exact .of_ok ((if_neg hneg).trans hload) hholds

theorem pushBytes_leads (h : q.Holds t) {bytes : Bytes} {offset len : Int32}
    (hguard : q.Guarded (.pushBytes (some bytes) offset len)) :
    Leads (PushBytes (some bytes) offset.toInt len.toInt) (fun _ ↦ .done) q
      (Op.spec t (.pushBytes (some bytes) offset len)) := by
  rw [Op.spec]
  by_cases hnone : len.toInt ≤ 0
  · rw [if_pos hnone]
    exact .of_ok (if_pos hnone) h
  rw [if_neg hnone]
  obtain ⟨hsum, hcases⟩ := hguard.resolve_left hnone
  have hlen := len.toInt_lt
  have hbound : (intBound : ℤ) = 2 ^ 31 := rfl
  have hwrap : toInt (max offset.toInt 0 + len.toInt) = max offset.toInt 0 + len.toInt :=
    toInt_of_lt (by omega) (by omega)
  by_cases hout : bytes.1.length < max offset.toInt 0 + len.toInt
  · rw [if_pos hout]
    refine .of_throw ((if_neg hnone).trans (if_pos ?_)) h
    rwa [hwrap]
  · rw [if_neg hout]
    obtain ⟨hfits, hwrites⟩ := hcases.resolve_left hout
    obtain ⟨q', hpush, hholds⟩ :=
      pushBytes_holds h (not_le.1 hnone) (not_lt.1 hout) hfits hwrites
    exact .of_ok hpush hholds

/-- **One operation** returns what it returns on a byte list, and leaves a queue that holds the
resulting list. -/
theorem perform_refines (h : q.Holds t) (op : Op) (hdom : q.InDomain op) (hguard : q.Guarded op) :
    ∃ q', q.perform op = some ((op.spec t).1, q') ∧ q'.Holds (op.spec t).2 := by
  cases op with
  | append data =>
    obtain ⟨q', hq', hholds⟩ := append_holds h hguard.1 hguard.2
    exact Leads.of_ok hq' hholds
  | pushBytes bytes offset len =>
    cases bytes with
    | none => exact ⟨_, rfl, h⟩
    | some bytes => exact pushBytes_leads h hguard
  | encode s =>
    obtain ⟨q', hq', hholds⟩ := encode_holds h hguard.1 hguard.2.1 hguard.2.2
    exact Leads.of_ok hq' hholds
  | load n =>
    rw [Op.spec, h.length]
    by_cases hshort : q.m_len < n
    · rw [if_pos hshort]
      obtain ⟨q', hq', hholds⟩ := load_throws h hshort
      exact Leads.of_throw hq' hholds
    · rw [if_neg hshort]
      obtain ⟨q', hq', hholds, _⟩ := load_ok h (not_lt.1 hshort) (hguard.resolve_left hshort)
      exact Leads.of_ok hq' hholds
  | loadBytes => exact loadBytes_leads h hguard
  | popBytes size => exact popBytes_leads h hguard
  | popBytesTo length size =>
    cases length with
    | none => exact ⟨_, rfl, h⟩
    | some length => exact popBytesTo_leads h hguard
  | discard len =>
    rw [Op.spec, h.length]
    obtain ⟨q', hq', hholds⟩ := discard_ok h hguard
    exact Leads.of_ok hq' hholds
  | setSize size =>
    rw [Op.spec]
    by_cases hneg : size.toInt < 0
    · rw [if_pos hneg]
      exact Leads.of_throw (if_pos hneg) h
    · rw [if_neg hneg]
      obtain ⟨q', hq', hholds⟩ := setSize_ok h (not_lt.1 hneg) hdom
      exact Leads.of_ok hq' hholds
  | realloc newMaxSize =>
    obtain ⟨b, hq', hlimit, hsmall, hslice, _⟩ := realloc_ok h.toSound hdom hguard
    refine Leads.of_ok hq' ⟨⟨?_, h.block_pos, h.block_lt⟩, hslice.trans h.content⟩
    have hlen : (q.m_len : ℤ) ≤ newMaxSize.toInt := hdom
    show 0 + q.m_len ≤ b.limit
    omega
  | getBuffer offset =>
    obtain ⟨q', hq', hholds⟩ := getBuffer_ok h hguard
    exact Leads.of_ok hq' hholds
  | getIntenalBuffer =>
    obtain ⟨q', hq', hholds⟩ := getIntenalBuffer_ok h hguard
    exact Leads.of_ok hq' hholds
  | empty => exact ⟨_, rfl, holds_nil h.toSound⟩
  | useBytes bytes =>
    cases bytes with
    | none => exact ⟨_, rfl, holds_nil h.toSound⟩
    | some bytes =>
      have hholds := @wrap_holds bytes _ _ q.m_bReading h.block_pos h.block_lt (Nat.le_refl _)
      rw [List.take_length] at hholds
      exact ⟨_, rfl, hholds⟩
  | useBytesLen bytes len =>
    cases bytes with
    | none => exact ⟨_, rfl, holds_nil h.toSound⟩
    | some bytes =>
      exact ⟨_, rfl, wrap_holds h.block_pos h.block_lt (usedLength_le bytes len)⟩
  | useBuffer bytes len =>
    cases bytes with
    | none => exact ⟨_, rfl, holds_nil h.toSound⟩
    | some bytes =>
      obtain ⟨q', hq', hholds⟩ := useBuffer_ok h.toSound hdom.1 hdom.2
      exact Leads.of_ok hq' hholds

/-! ### `Push` of a queue -/

section Push

variable {r r' q' : CUQueue} {u : List UInt8}

theorem onThis_ok {α : Type} {x : Method α} {a : α} (h : x q = .ok a q') :
    onThis x (q, r) = .ok a (q', r) := by
  rw [onThis, h]

theorem onOther_ok {α : Type} {x : Method α} {a : α} (h : x r = .ok a r') :
    onOther x (q, r) = .ok a (q, r') := by
  rw [onOther, h]

/-- The other queue as `Push` sets it up: its buffer is the content. -/
theorem exposed_ok (h : r.Holds u) (hread : r.Readable) :
    ∃ r₁ r₂ : CUQueue, SetForReading 0 r = .ok () r₁ ∧
      limit (r₁.m_position + r.m_len) r₁ = .ok () r₂ ∧ r₂.Holds u ∧ r₂.m_bytes.remaining = u := by
  obtain ⟨b, hset, hb⟩ := setForReading_ok h.toSound (Nat.zero_le _)
  let r₁ : CUQueue := { r with m_bytes := b, m_bReading := true }
  have hend : r.m_position + r.m_len ≤ b.capacity := hb.fits.trans b.limit_le
  have hlimit := limit_ok (q := r₁) hend
  have hpos : min b.position (r.m_position + r.m_len) = r.m_position := by
    rw [hb.position_eq hread]
    exact Nat.min_eq_left (Nat.le_add_right _ _)
  refine ⟨r₁, _, hset, hlimit, ⟨⟨Nat.le_refl _, h.block_pos, h.block_lt⟩, (hb.holds h).content⟩,
    ?_⟩
  show slice (min b.position (r.m_position + r.m_len)) (r.m_position + r.m_len -
    min b.position (r.m_position + r.m_len)) b.array = u
  rw [hpos, Nat.add_sub_cancel_left, hb.array_eq, ← h.content, content]

/-- **`Push`** puts the content of the other queue behind that of this one. -/
theorem push_ok (h : q.Holds t) (hr : r.Holds u)
    (hguard : r.m_len = 0 ∨ r.Readable ∧ q.Fits r.m_len ∧ q.Writes r.m_len) :
    ∃ q' r', Push (q, r) = .ok () (q', r') ∧ q'.Holds (t ++ u) ∧ r'.Holds u := by
  by_cases hzero : r.m_len = 0
  · obtain rfl := List.length_eq_zero_iff.1 (hr.length.trans hzero)
    rw [List.append_nil]
    exact ⟨q, r, if_pos hzero, h, hr⟩
  · obtain ⟨hread, hfits, hwrites⟩ := hguard.resolve_left hzero
    obtain ⟨r₁, r₂, hset, hlimit, hholds, hremaining⟩ := exposed_ok hr hread
    obtain ⟨q₁, hensure, hsound, hcontent, _, hready⟩ := ensure_ok h.toSound hfits
    have hready₁ := hready hwrites
    rw [← hr.length] at hready₁
    obtain ⟨q', hput, hq'⟩ := written_holds hsound (.inr hready₁)
    obtain ⟨_, q₂, hput, hassign⟩ := Effect.bind_eq_ok.1 hput
    rw [hcontent, h.content] at hq'
    rw [hr.length] at hassign
    let r₃ : CUQueue := { r₂ with
      m_bytes := { r₂.m_bytes with position := r₂.m_bytes.limit, position_le := Nat.le_refl _ } }
    have hback : r₃.m_position ≤ r₃.m_bytes.limit :=
      (Nat.le_add_right _ _).trans hholds.fits
    refine ⟨q', { r₃ with
        m_bytes := { r₃.m_bytes with position := r₃.m_position, position_le := hback } },
      ?_, hq', ⟨⟨hholds.fits, hholds.block_pos, hholds.block_lt⟩, hholds.content⟩⟩
    rw [Push]
    simp only [if_neg hzero]
    refine (Effect.bind_ok (onOther_ok hset)).trans ?_
    refine (Effect.bind_ok (onOther_ok (x := fun q ↦ limit (q.m_position + r.m_len) q)
      hlimit)).trans ?_
    refine (Effect.bind_ok (onThis_ok hensure)).trans ?_
    have hput₂ : onThis (put r₂.m_bytes.remaining) (q₁, r₂) = .ok () (q₂, r₂) :=
      onThis_ok (hremaining.symm ▸ hput)
    refine (Effect.bind_ok hput₂).trans ?_
    refine (Effect.bind_ok (onOther_ok (x := fun q ↦ position q.m_bytes.limit q)
      (position_ok (Nat.le_refl r₂.m_bytes.limit)))).trans ?_
    refine (Effect.bind_ok (onThis_ok hassign)).trans ?_
    exact onOther_ok (x := fun q ↦ position q.m_position q) (position_ok (q := r₃) hback)

end Push

end CUQueue

/-! ### Several queues -/

section Family

variable {ι : Type} [DecidableEq ι]

/-- The result of an action on byte lists, and the lists it leaves. -/
def Action.spec (t : ι → List UInt8) : Action ι → Result × (ι → List UInt8)
  | .on i op => ((op.spec (t i)).1, Function.update t i (op.spec (t i)).2)
  | .push i q => (.done, Function.update t i (t i ++ t q))

/-- What the results about runs are restricted to. -/
def InDomain (s : ι → CUQueue) : Action ι → Prop
  | .on i op => (s i).InDomain op
  | .push i q => (s i).m_len + (s q).m_len < intBound

/-- The condition on one queue, and on two: a queue is pushed to another one. -/
def Guarded (s : ι → CUQueue) : Action ι → Prop
  | .on i op => (s i).Guarded op
  | .push i q => (s q).m_len = 0 ∨
    i ≠ q ∧ (s q).Readable ∧ (s i).Fits (s q).m_len ∧ (s i).Writes (s q).m_len

omit [DecidableEq ι] in
instance (s : ι → CUQueue) (a : Action ι) : Decidable (InDomain s a) := by
  cases a <;> unfold InDomain <;> infer_instance

instance (s : ι → CUQueue) (a : Action ι) : Decidable (Guarded s a) := by
  cases a <;> unfold Guarded <;> infer_instance

variable {s : ι → CUQueue} {t : ι → List UInt8}

/-- What holds of each queue and its list holds after one of them is changed. -/
theorem update_holds {i : ι} {q : CUQueue} {u : List UInt8} (h : ∀ i, (s i).Holds (t i))
    (hq : q.Holds u) (j : ι) : (Function.update s i q j).Holds (Function.update t i u j) := by
  by_cases hj : j = i
  · subst hj
    rwa [Function.update_self, Function.update_self]
  · rw [Function.update_of_ne hj, Function.update_of_ne hj]
    exact h j

theorem push_refines (h : ∀ i, (s i).Holds (t i)) {i q : ι} (hguard : Guarded s (.push i q)) :
    ∃ s', step s (.push i q) = some (.done, s') ∧
      ∀ j, (s' j).Holds (Function.update t i (t i ++ t q) j) := by
  by_cases hself : i = q
  · subst hself
    have hempty : (s i).m_len = 0 := hguard.resolve_right fun hr ↦ hr.1 rfl
    have hnil : t i = [] := List.length_eq_zero_iff.1 ((h i).length.trans hempty)
    refine ⟨Function.update s i (s i), ?_, update_holds h ?_⟩
    · rw [step, if_pos rfl, Method.result, CUQueue.PushSelf, if_pos hempty]
      rfl
    · rw [hnil, List.append_nil, ← hnil]
      exact h i
  · obtain ⟨q', r', hpush, hq', hr'⟩ :=
      CUQueue.push_ok (h i) (h q) (hguard.imp_right fun hr ↦ hr.2)
    refine ⟨Function.update (Function.update s i q') q r', ?_, ?_⟩
    · rw [step, if_neg hself, Method.result, hpush]
      rfl
    · have hsame : Function.update t i (t i ++ t q) =
          Function.update (Function.update t i (t i ++ t q)) q (t q) := by
        rw [eq_comm, Function.update_eq_self_iff, Function.update_of_ne (Ne.symm hself)]
      rw [hsame]
      exact update_holds (update_holds h hq') hr'

theorem step_refines (h : ∀ i, (s i).Holds (t i)) (a : Action ι) (hdom : InDomain s a)
    (hguard : Guarded s a) :
    ∃ s', step s a = some ((a.spec t).1, s') ∧ ∀ i, (s' i).Holds ((a.spec t).2 i) := by
  cases a with
  | on i op =>
    obtain ⟨q', hq', hholds⟩ := CUQueue.perform_refines (h i) op hdom hguard
    refine ⟨Function.update s i q', ?_, update_holds h hholds⟩
    show ((s i).perform op).map _ = _
    rw [hq', Option.map_some]
    rfl
  | push i q => exact push_refines h hguard

/-- **The queue is a byte list.** From queues made by any constructors, every sequence of
operations in the domain, each of which finds the buffer as it expects it, returns what it returns
on byte lists and leaves the contents of the lists. -/
theorem byteBuffer_is_byte_list (c : ι → Constructor) (actions : List (Action ι))
    (h : Within (next step) (fun s a ↦ InDomain s a ∧ Guarded s a) (start c) actions) :
    ∃ s, trace step (start c) actions =
        some ((collect Action.spec (fun i ↦ (c i).content) actions).1, s) ∧
      ∀ i, (s i).content = (collect Action.spec (fun i ↦ (c i).content) actions).2 i := by
  have hmade : ∀ i, (start c i).Holds ((fun i ↦ (c i).content) i) :=
    fun i ↦ CUQueue.make_holds (c i)
  have hsim : ∀ (s : ι → CUQueue) (t : ι → List UInt8) (a : Action ι),
      (∀ i, (s i).Holds (t i)) → InDomain s a ∧ Guarded s a →
      ∃ b s' t', step s a = some (b, s') ∧ a.spec t = (b, t') ∧ ∀ i, (s' i).Holds (t' i) :=
    fun s t a hR hC ↦ by
      obtain ⟨s', hs', hholds⟩ := step_refines hR a hC.1 hC.2
      exact ⟨_, s', _, hs', rfl, hholds⟩
  obtain ⟨rs, s, t, hs, ht, hholds⟩ := trace_simulates hsim actions hmade h
  rw [collect_of_steps ht]
  exact ⟨s, hs, fun i ↦ (hholds i).content⟩

/-- A queue of sixteen bytes and one that wraps an array, with reads, a larger buffer, and a push of
one to the other. -/
def someActions : List (Action Bool) :=
  [.on true (.append [1, 2, 3, 4, 5, 6]), .on true (.load 2), .on true (.append [7, 8]),
    .on true .getIntenalBuffer, .on true (.getBuffer 0), .on true (.popBytes 1),
    .on true (.encode [65, 66]), .push false true, .on false (.discard 3), .on false .loadBytes,
    .on true (.setSize 4), .on true (.popBytesTo (some 3) 2), .on true .empty,
    .on true (.useBytesLen (some ⟨[1, 2, 3, 4], by decide⟩) 3), .on true (.load 4)]

/-- What the queues of the example are made by. -/
def someConstructors : Bool → Constructor
  | true => .sizes 16 16
  | false => .bytes (some ⟨[9, 9, 9], by decide⟩)

theorem someActions_within : Within (next step) (fun s a ↦ InDomain s a ∧ Guarded s a)
    (start someConstructors) someActions := by
  decide +kernel

theorem byteBuffer_is_byte_list_someActions :
    ∃ s, trace step (start someConstructors) someActions =
        some ((collect Action.spec (fun i ↦ (someConstructors i).content) someActions).1, s) ∧
      ∀ i, (s i).content =
        (collect Action.spec (fun i ↦ (someConstructors i).content) someActions).2 i :=
  byteBuffer_is_byte_list someConstructors someActions someActions_within

/-- Six bytes are cut to four, and the next byte is written in the place of the first. -/
def cutActions : List (Action Unit) :=
  [.on () (.append [1, 2, 3, 4, 5, 6]), .on () (.setSize 4), .on () (.append [7])]

theorem content_cut :
    ((trace step (start fun _ ↦ .sizes 16 16) cutActions).map fun r ↦ (r.2 ()).content) =
        some [7, 2, 3, 4, 5] ∧
      (collect Action.spec (fun _ : Unit ↦ (Constructor.sizes 16 16).content) cutActions).2 () =
        [1, 2, 3, 4, 7] := by
  decide +kernel

theorem written_over :
    ¬ ∀ (c : Unit → Constructor) (actions : List (Action Unit)),
      Within (next step) InDomain (start c) actions →
      ∃ s, trace step (start c) actions =
          some ((collect Action.spec (fun i ↦ (c i).content) actions).1, s) ∧
        ∀ i, (s i).content = (collect Action.spec (fun i ↦ (c i).content) actions).2 i := by
  intro h
  obtain ⟨s, hs, hcontent⟩ := h (fun _ ↦ .sizes 16 16) cutActions (by decide +kernel)
  have hcut := content_cut.1
  rw [hs, Option.map_some, hcontent (), content_cut.2] at hcut
  exact absurd hcut (by decide)

end Family

end SocketPro.Java
