import SocketPro.Foundation.Framing
import SocketPro.Java.Values

/-!
# Streaming the parameters of a statement in Java

`CAsyncDBHandler.SendParametersData` of `CAsyncDBHandler.java` with `Send` and `SendBlob`. One queue
out of a pool serves for the row frames, for the large parameters and for their chunks. What a
request carries is what lies between the position and the limit of the buffer. `accepts` says which
requests the socket takes, counted from the first one.

**Where it fails.** Once the last chunk has been taken, the queue is empty and still in its reading
mode, and the buffer is cleared: its limit is its capacity. An `idEndBLOB` then carries all bytes of
the buffer, where it should carry none. This is so for a large parameter whose bytes, with the four
of the length, are a multiple of the size of a chunk (`Spills`).

* `parameters_exact` — **within the sizes of an `int` the frames are exact if and only if no
  parameter spills.**
-/

namespace SocketPro.Java

open Block Bytes Framing Machine Nio

abbrev DEFAULT_BIG_FIELD_CHUNK_SIZE : ℕ := 16 * 1024

abbrev DEFAULT_RECORD_BATCH_SIZE : ℕ := 16 * 1024

abbrev idBeginRows : Tag := .opening

abbrev idTransferring : Tag := .rows

abbrev idStartBLOB : Tag := .start

abbrev idChunk : Tag := .chunk

abbrev idEndBLOB : Tag := .finish

/-! ### The sender -/

/-- The queue, the flag `firstRow[0]`, and the requests that have been sent. -/
structure ParameterSender where
  sb : CUQueue
  firstRow : Bool
  sent : List (Frame UInt8)

/-- A method of the handler. -/
abbrev Program (α : Type) := Effect Exception ParameterSender α

namespace ParameterSender

/-- A method of the queue. -/
def onQueue {α : Type} (x : Method α) : Program α := fun s ↦
  match x s.sb with
  | .ok a q => .ok a { s with sb := q }
  | .throw e q => .throw e { s with sb := q }
  | .fault => .fault

/-- `firstRow[0] = false` -/
def lowerFirstRow : Program Unit := fun s ↦ .ok () { s with firstRow := false }

section Sending

variable (accepts : ℕ → Bool)

/-- `SendRequest(reqId, data, null)` -/
def SendRequest (reqId : Tag) (data : List UInt8) : Program Bool := fun s ↦
  if accepts s.sent.length = true then .ok true { s with sent := s.sent ++ [⟨reqId, data⟩] }
  else .ok false s

/-- A request with the bytes of `q.getIntenalBuffer()`. -/
def SendBuffer (reqId : Tag) : Program Bool := do
  let data ← onQueue CUQueue.getIntenalBuffer
  SendRequest accepts reqId data

/-- `q.SetSize(0)` at the end of a method that returns `true`. -/
def clearQueue : Program Bool := do
  onQueue (CUQueue.SetSize 0)
  pure true

/-- `Send(q, firstRow)` -/
def Send : Program Bool := fun s ↦
  if 0 < s.sb.m_len then
    if s.firstRow = true then
      (lowerFirstRow >>= fun _ ↦ (SendBuffer accepts idBeginRows).onSuccess clearQueue) s
    else ((SendBuffer accepts idTransferring).onSuccess clearQueue) s
  else if s.firstRow = true then
    (lowerFirstRow >>= fun _ ↦ SendRequest accepts idBeginRows []) s
  else .ok true s

/-- One round of the loop of `SendBlob`, up to the last test. -/
def SendChunk (start : Bool) : Program Bool := fun s ↦
  let send := if DEFAULT_BIG_FIELD_CHUNK_SIZE ≤ s.sb.m_len then DEFAULT_BIG_FIELD_CHUNK_SIZE
    else s.sb.m_len
  (do
    let bytes ← onQueue (CUQueue.PopBytesTo (some DEFAULT_BIG_FIELD_CHUNK_SIZE) send)
    SendRequest accepts (if start = true then idStartBLOB else idChunk) bytes : Program Bool) s

/-- The loop of `SendBlob`. Every round takes some bytes, so that there are at most as many rounds
as bytes. -/
def SendChunks : ℕ → Bool → Program Bool
  | 0, _ => fun _ ↦ .fault
  | rounds + 1, start => fun s ↦
    if 0 < s.sb.m_len then
      (SendChunk accepts start).onSuccess
        (fun s ↦ if s.sb.m_len < DEFAULT_BIG_FIELD_CHUNK_SIZE then .ok true s
          else SendChunks rounds false s) s
    else .ok true s

/-- `SendBlob(q)` -/
def SendBlob : Program Bool := fun s ↦
  if 0 < s.sb.m_len then
    ((SendChunks accepts s.sb.m_len true).onSuccess
      ((SendBuffer accepts idEndBLOB).onSuccess clearQueue)) s
  else .ok true s

variable (order : ByteOrder)

/-- `sb.Save(vt)` -/
def save (vt : Value) : Program Bool := do
  onQueue (CUQueue.Save order vt)
  pure true

/-- `sb.Save(bytes).Save(vt)` with the length that is announced, and `SendBlob(sb)`. -/
def saveBlob (bytes : ℕ) (vt : Value) : Program Bool := do
  onQueue (CUQueue.write (number order 4 bytes))
  onQueue (CUQueue.Save order vt)
  SendBlob accepts

/-- The test at the end of a round. -/
def flushFull : Program Bool := fun s ↦
  if DEFAULT_RECORD_BATCH_SIZE ≤ s.sb.m_len then Send accepts s else .ok true s

/-- The round of the loop for one parameter. -/
def parameter : Value → Program Bool
  | .null => save order .null
  | .string s =>
    (if s.length < DEFAULT_BIG_FIELD_CHUNK_SIZE then save order (.string s)
      else (Send accepts).onSuccess
        (saveBlob accepts order (s.length * 2 + 6) (.string s))).onSuccess (flushFull accepts)
  | .bytes a =>
    (if a.length < 2 * DEFAULT_BIG_FIELD_CHUNK_SIZE then save order (.bytes a)
      else (Send accepts).onSuccess (saveBlob accepts order (a.length + 6) (.bytes a))).onSuccess
        (flushFull accepts)
  | vt => (save order vt).onSuccess (flushFull accepts)

/-- The loop over the parameters. -/
def parameters : List Value → Program Bool
  | [] => pure true
  | vt :: vParam => (parameter accepts order vt).onSuccess (parameters vParam)

/-- `SendParametersData(vParam)` with a queue of the pool. For `null` it does what it does for an
empty array. -/
def SendParametersData (vParam : List Value) (q : CUQueue) :
    Outcome Exception ParameterSender Bool :=
  if vParam.length = 0 then .ok true ⟨q, true, []⟩
  else ((parameters accepts order vParam).onSuccess (Send accepts)) ⟨q, true, []⟩

end Sending

end ParameterSender

/-- How `CScopeUQueue.Unlock` leaves a queue behind. -/
structure CUQueue.Pooled (q : CUQueue) : Prop where
  block_pos : 0 < q.m_blockSize
  block_lt : q.m_blockSize < intBound
  len_eq : q.m_len = 0
  front : q.m_position = 0
  cleared : q.m_bytes = q.m_bytes.clear

/-- So is a queue that has been made for the pool. -/
theorem CUQueue.ofSizes_pooled (maxSize blockSize : Int32) :
    (ofSizes maxSize blockSize).Pooled where
  block_pos := (ofSizes_holds maxSize blockSize).block_pos
  block_lt := (ofSizes_holds maxSize blockSize).block_lt
  len_eq := rfl
  front := rfl
  cleared := (ByteBuffer.clear_zeros (orDefault_lt (by decide))).symm

/-- Whether a parameter is sent as a blob. -/
def Value.large : Value → Bool
  | .string s => decide (DEFAULT_BIG_FIELD_CHUNK_SIZE ≤ s.length)
  | .bytes a => decide (2 * DEFAULT_BIG_FIELD_CHUNK_SIZE ≤ a.length)
  | _ => false

theorem Value.writes_ne_nil (order : ByteOrder) (v : Value) :
    ∃ n ws, v.writes order = number order 2 n :: ws := by
  cases v <;> exact ⟨_, _, by rw [writes]⟩

theorem Value.encode_ne_nil (order : ByteOrder) (v : Value) : v.encode order ≠ [] := by
  obtain ⟨n, ws, hws⟩ := v.writes_ne_nil order
  intro hnil
  rw [encode, hws, List.flatMap_cons, List.append_eq_nil_iff] at hnil
  have hlen := congrArg List.length hnil.1
  rw [number, Write.bytes, ByteOrder.length_bytes] at hlen
  cases hlen

/-- Parameters in frames: the length of a large one is announced in four bytes. -/
def wire (order : ByteOrder) : Format Value UInt8 where
  encode v := v.encode order
  announce v := order.bytes 4 (v.encode order).length
  width := 4
  large := Value.large
  encode_ne_nil v := v.encode_ne_nil order
  length_announce _ := order.length_bytes 4 _

/-- A large parameter whose last chunk is full. -/
def Value.Spills (order : ByteOrder) (v : Value) : Prop :=
  v.large = true ∧ DEFAULT_BIG_FIELD_CHUNK_SIZE ∣ (v.encode order).length + 4

/-- No surrogate stands alone in the texts of a parameter. -/
def Value.Paired (order : ByteOrder) (v : Value) : Prop := ∀ w ∈ v.writes order, w.Paired

/-- Whether the size of the queue is looked at behind a parameter. -/
def Value.flushes : Value → Bool
  | .null => false
  | _ => true

/-- The extent of the queue behind a parameter, if the buffer can become as large as it takes. -/
def Extent.parameter (order : ByteOrder) (block : ℕ) (e : Extent) (v : Value) : Option Extent :=
  if v.large = true then
    (Extent.writes block ⟨e.capacity, 0⟩ (number order 4 0 :: v.writes order)).map fun e ↦
      ⟨e.capacity, 0⟩
  else
    (Extent.writes block e (v.writes order)).map fun e ↦
      if v.flushes = true ∧ DEFAULT_RECORD_BATCH_SIZE ≤ e.len then ⟨e.capacity, 0⟩ else e

namespace CUQueue

/-! ### The queue between two requests -/

variable {q : CUQueue} {t : List UInt8} {block n : ℕ} {e : Extent}

/-- `SetSize(0)` -/
theorem setSize_zero (h : q.Sound) (hblock : q.m_blockSize = block)
    (hcapacity : q.m_bytes.capacity = e.capacity) :
    ∃ q', SetSize 0 q = .ok () q' ∧ q'.Writable [] block ⟨e.capacity, 0⟩ := by
  have hfits := h.fits_capacity
  have hroom : ¬ (q.m_bytes.capacity : ℤ) - q.m_position < 0 := by omega
  let q' : CUQueue := { q with m_len := 0, m_position := 0, m_bytes := q.m_bytes.clear }
  have hends : q'.m_bReading = true ∧ ([] : List UInt8) = [] ∨ q'.m_bReading = false ∧
      q'.m_bytes.position = q'.m_len ∧ q'.m_bytes.limit = q'.m_bytes.capacity := by
    cases hr : q.m_bReading with
    | true => exact .inl ⟨rfl, rfl⟩
    | false => exact .inr ⟨rfl, rfl, rfl⟩
  exact ⟨q', by rw [SetSize, if_neg (by decide), if_neg hroom, if_pos rfl],
    holds_nil h, hblock, hcapacity, rfl, rfl, hends⟩

/-- The queue from which chunks are taken: the buffer is the content, or it is cleared. -/
structure Popping (q : CUQueue) (t : List UInt8) (block : ℕ) (e : Extent) : Prop where
  holds : q.Holds t
  block_eq : q.m_blockSize = block
  capacity_eq : q.m_bytes.capacity = e.capacity
  exposed : t ≠ [] → q.Exposed
  cleared : t = [] → q.m_bReading = true ∧ q.m_bytes.position = 0 ∧
    q.m_bytes.limit = q.m_bytes.capacity

theorem Writable.popping (h : q.Writable t block e) (ht : t ≠ []) : q.Popping t block e where
  holds := h.holds
  block_eq := h.block_eq
  capacity_eq := h.capacity_eq
  exposed _ hr := absurd hr (by rw [(h.ends.resolve_left fun hnot ↦ ht hnot.2).1]; decide)
  cleared hnil := absurd hnil ht

/-- **`PopBytes`** of a part of the content. -/
theorem popBytesTo_popping (h : q.Popping t block e) (hpos : 0 < n) (hn : n ≤ t.length)
    {length : ℕ} (hlength : n ≤ length) :
    ∃ q', PopBytesTo (some length) n q = .ok (t.take n) q' ∧ q'.Popping (t.drop n) block e := by
  have hlen := h.holds.length
  have hne : t ≠ [] := fun hnil ↦ by
    rw [hnil, List.length_nil] at hn
    omega
  have hexposed := h.exposed hne
  obtain ⟨b, hset, hb⟩ := setForReading_ok h.holds.toSound (hn.trans_eq hlen)
  have hbpos : b.position = q.m_position := hb.position_eq fun hr ↦ (hexposed hr).1
  have hblimit := hb.limit_eq hexposed
  have hbcap : b.capacity = e.capacity := (congrArg List.length hb.array_eq).trans h.capacity_eq
  let q₁ : CUQueue := { q with m_bytes := b, m_bReading := true }
  have hin : b.position + n ≤ b.limit := by omega
  have hdata : slice b.position n b.array = t.take n := by
    rw [hbpos, hb.array_eq, ← h.holds.content, content, take_slice (hn.trans_eq hlen)]
  let q₂ : CUQueue := { q₁ with
    m_bytes := { b with position := b.position + n, position_le := hin } }
  have hq₂ : q₂.Holds t := ⟨⟨hb.fits, h.holds.block_pos, h.holds.block_lt⟩,
    (hb.holds h.holds (r := true)).content⟩
  obtain ⟨q', hadjust, hq', -⟩ := adjustPosition_holds hq₂ (hn.trans_eq hlen)
  refine ⟨q', ?_, ?_⟩
  · have hmin : min (min (n : ℤ).toNat length) q.m_len = n := by
      rw [Int.toNat_natCast, Nat.min_eq_left hlength, Nat.min_eq_left (hn.trans_eq hlen)]
    have htake : take n q₁ = .ok (t.take n) q' :=
      (Effect.bind_ok (get_ok (q := q₁) hin hdata)).trans ((Effect.bind_ok hadjust).trans rfl)
    have hload : Load (min (min (n : ℤ).toNat length) q.m_len) q = .ok (t.take n) q' := by
      rw [hmin]
      exact (Effect.bind_ok hset).trans htake
    exact (if_neg (by omega)).trans hload
  · by_cases hall : q.m_len - n = 0
    · have hnil : t.drop n = [] := List.drop_of_length_le (by omega)
      rw [AdjustPosition, if_pos (by exact hall)] at hadjust
      obtain rfl := (Outcome.ok.inj hadjust).2
      exact ⟨hq', h.block_eq, hbcap, fun hcons ↦ absurd hnil hcons, fun _ ↦ ⟨rfl, rfl, rfl⟩⟩
    · have hcons : t.drop n ≠ [] := fun hnil ↦ by
        have hlen₀ := congrArg List.length hnil
        rw [List.length_drop, List.length_nil] at hlen₀
        omega
      rw [AdjustPosition, if_neg (by exact hall)] at hadjust
      obtain rfl := (Outcome.ok.inj hadjust).2
      refine ⟨hq', h.block_eq, hbcap, fun _ _ ↦ ⟨?_, ?_⟩, fun hnil ↦ absurd hnil hcons⟩
      · show b.position + n = q.m_position + n
        rw [hbpos]
      · show b.limit = q.m_position + n + (q.m_len - n)
        omega

/-- **`getIntenalBuffer`** shows the content, and all of the buffer when it is cleared. -/
theorem getIntenalBuffer_popping (h : q.Popping t block e) (hcapacity : 0 < e.capacity) :
    ∃ surplus q', getIntenalBuffer q = .ok (t ++ surplus) q' ∧ (surplus = [] ↔ t ≠ []) ∧
      q'.Sound ∧ q'.m_blockSize = block ∧ q'.m_bytes.capacity = e.capacity := by
  by_cases hne : t = []
  · obtain ⟨hr, hpos, hlimit⟩ := h.cleared hne
    have hstart : startReading q = .ok () q := if_pos hr
    have hset : SetForReading 0 q = .ok () q :=
      (Effect.bind_ok hstart).trans (if_neg (Nat.not_lt_zero _))
    have hremaining : q.m_bytes.remaining = q.m_bytes.array := by
      rw [ByteBuffer.remaining, hpos, hlimit]
      exact slice_all
    have hsome : q.m_bytes.array ≠ [] := fun hnil ↦ by
      have hlen := h.capacity_eq
      rw [ByteBuffer.capacity, hnil, List.length_nil] at hlen
      omega
    refine ⟨q.m_bytes.array, q, (Effect.bind_ok hset).trans ?_, ?_, h.holds.toSound, h.block_eq,
      h.capacity_eq⟩
    · show Outcome.ok q.m_bytes.remaining q = _
      rw [hremaining, hne, List.nil_append]
    · exact ⟨fun hnil ↦ absurd hnil hsome, fun hcons ↦ absurd hne hcons⟩
  · have hexposed := h.exposed hne
    obtain ⟨b, hset, hb⟩ := setForReading_ok h.holds.toSound (Nat.zero_le _)
    have hbcap : b.capacity = e.capacity := (congrArg List.length hb.array_eq).trans h.capacity_eq
    have hremaining : b.remaining = t := by
      rw [ByteBuffer.remaining, hb.position_eq fun hr ↦ (hexposed hr).1, hb.limit_eq hexposed,
        hb.array_eq, Nat.add_sub_cancel_left, ← h.holds.content, content]
    refine ⟨[], _, (Effect.bind_ok hset).trans ?_, ⟨fun _ ↦ hne, fun _ ↦ rfl⟩,
      (hb.holds h.holds (r := true)).toSound, h.block_eq, hbcap⟩
    show Outcome.ok b.remaining _ = _
    rw [hremaining, List.append_nil]

end CUQueue

/-! ### Requests -/

namespace ParameterSender

/-- Some request is refused. -/
def Refused (accepts : ℕ → Bool) : Prop := ∃ n, accepts n = false

variable {accepts : ℕ → Bool} {order : ByteOrder} {s : ParameterSender} {t : List UInt8}
  {block : ℕ} {e e' : Extent} {items : List (Value × List UInt8)}

theorem onQueue_ok {α : Type} {x : Method α} {a : α} {q : CUQueue} (h : x s.sb = .ok a q) :
    onQueue x s = .ok a { s with sb := q } := by
  rw [onQueue, h]

/-- A request is sent, or refused. -/
theorem sendRequest_reports (reqId : Tag) (data : List UInt8) {Q : ParameterSender → Prop}
    (hQ : Q { s with sent := s.sent ++ [⟨reqId, data⟩] }) :
    Effect.Reports (SendRequest accepts reqId data) s Q (Refused accepts) := by
  by_cases haccepts : accepts s.sent.length = true
  · exact .of_true (if_pos haccepts) hQ
  · exact .of_false (if_neg haccepts) ⟨s.sent.length, Bool.eq_false_iff.2 haccepts⟩

/-- A request with all of the queue, which is empty afterwards. -/
theorem sendBuffer_reports (reqId : Tag) (h : s.sb.Popping t block e) (hcapacity : 0 < e.capacity) :
    Effect.Reports ((SendBuffer accepts reqId).onSuccess clearQueue) s
      (fun s' ↦ ∃ surplus, (surplus = [] ↔ t ≠ []) ∧
        s'.sent = s.sent ++ [⟨reqId, t ++ surplus⟩] ∧ s'.firstRow = s.firstRow ∧
        s'.sb.Writable [] block ⟨e.capacity, 0⟩)
      (Refused accepts) := by
  obtain ⟨surplus, q₁, hget, hsurplus, hsound, hblock, hcap⟩ :=
    CUQueue.getIntenalBuffer_popping h hcapacity
  obtain ⟨q₂, hclear, hq₂⟩ := CUQueue.setSize_zero hsound hblock hcap
  let s₁ : ParameterSender := { s with sb := q₁ }
  let s₂ : ParameterSender := { s₁ with sent := s.sent ++ [⟨reqId, t ++ surplus⟩] }
  refine .onSuccess (Q := fun s' ↦ s' = s₂) ?_ fun s' hs' ↦ ?_
  · exact .bind_ok (onQueue_ok hget) (sendRequest_reports (s := s₁) reqId _ rfl)
  · subst hs'
    refine .bind_ok (onQueue_ok (s := s₂) hclear) (.of_true rfl ?_)
    exact ⟨surplus, hsurplus, rfl, rfl, hq₂⟩

/-! ### Between two parameters -/

/-- After some items: what is pending of them is in the queue. -/
structure Sending (order : ByteOrder) (block : ℕ) (e : Extent) (items : List (Value × List UInt8))
    (s : ParameterSender) : Prop where
  pending : ∃ t, s.sb.Writable t block e ∧ Streamed (wire order) s.sent t s.firstRow items

/-- After a flush: nothing is pending. -/
structure Flushed (order : ByteOrder) (block : ℕ) (e : Extent) (items : List (Value × List UInt8))
    (s : ParameterSender) : Prop where
  writable : s.sb.Writable [] block ⟨e.capacity, 0⟩
  lowered : s.firstRow = false
  framed : Framed (wire order) s.sent items

theorem Flushed.sending (h : Flushed order block e items s) :
    Sending order block ⟨e.capacity, 0⟩ items s :=
  ⟨[], h.writable, h.lowered ▸ h.framed.streamed⟩

/-- **`Send`** -/
theorem send_reports (h : Sending order block e items s) :
    Effect.Reports (Send accepts) s (Flushed order block e items) (Refused accepts) := by
  obtain ⟨t, hq, hstreamed⟩ := h
  have hframed := hstreamed.flush
  have hlen := hq.holds.length
  by_cases hpos : 0 < s.sb.m_len
  · have hne : t ≠ [] := fun hnil ↦ by
      rw [hnil, List.length_nil] at hlen
      omega
    have hcapacity : 0 < e.capacity := by
      have hfits := hq.holds.fits_capacity
      rw [hq.capacity_eq] at hfits
      omega
    have hflush : Framing.flush t s.firstRow =
        [⟨if s.firstRow = true then .opening else .rows, t⟩] := if_pos hne
    rw [hflush] at hframed
    by_cases hfirst : s.firstRow = true
    · rw [if_pos hfirst] at hframed
      refine .of_eq ((if_pos hpos).trans (if_pos hfirst)) ?_
      let s₁ : ParameterSender := { s with firstRow := false }
      refine .bind_ok (t := s₁) rfl ?_
      refine (sendBuffer_reports (s := s₁) idBeginRows (hq.popping hne) hcapacity).mono ?_
      rintro s' ⟨surplus, hsurplus, hsent, hlow, hq'⟩
      rw [hsurplus.2 hne, List.append_nil] at hsent
      exact ⟨hq', hlow, hsent ▸ hframed⟩
    · rw [if_neg hfirst] at hframed
      refine .of_eq ((if_pos hpos).trans (if_neg hfirst)) ?_
      refine (sendBuffer_reports idTransferring (hq.popping hne) hcapacity).mono ?_
      rintro s' ⟨surplus, hsurplus, hsent, hlow, hq'⟩
      rw [hsurplus.2 hne, List.append_nil] at hsent
      exact ⟨hq', hlow.trans (Bool.eq_false_iff.2 hfirst), hsent ▸ hframed⟩
  · have hzero : s.sb.m_len = 0 := Nat.eq_zero_of_not_pos hpos
    obtain rfl : t = [] := List.length_eq_zero_iff.1 (hlen.trans hzero)
    have hempty : e = ⟨e.capacity, 0⟩ := by rw [← hzero, hq.len_eq]
    have hq₀ : s.sb.Writable [] block ⟨e.capacity, 0⟩ := hempty ▸ hq
    by_cases hfirst : s.firstRow = true
    · rw [Framing.flush, if_neg (fun hne ↦ hne rfl), if_pos hfirst] at hframed
      refine .of_eq ((if_neg hpos).trans (if_pos hfirst)) ?_
      let s₁ : ParameterSender := { s with firstRow := false }
      refine .bind_ok (t := s₁) rfl (sendRequest_reports (s := s₁) idBeginRows [] ?_)
      exact ⟨hq₀, rfl, hframed⟩
    · rw [Framing.flush, if_neg (fun hne ↦ hne rfl), if_neg hfirst, List.append_nil] at hframed
      refine .of_eq ((if_neg hpos).trans (if_neg hfirst)) (.of_true rfl ?_)
      exact ⟨hq₀, Bool.eq_false_iff.2 hfirst, hframed⟩

/-! ### A blob -/

/-- One chunk. -/
theorem sendChunk_reports {start : Bool} (h : s.sb.Popping t block e)
    (ht : DEFAULT_BIG_FIELD_CHUNK_SIZE ≤ t.length) :
    Effect.Reports (SendChunk accepts start) s
      (fun s' ↦ s'.sb.Popping (t.drop DEFAULT_BIG_FIELD_CHUNK_SIZE) block e ∧
        s'.firstRow = s.firstRow ∧
        s'.sent = s.sent ++ [⟨if start = true then idStartBLOB else idChunk,
          t.take DEFAULT_BIG_FIELD_CHUNK_SIZE⟩])
      (Refused accepts) := by
  have hsend : (if DEFAULT_BIG_FIELD_CHUNK_SIZE ≤ s.sb.m_len then DEFAULT_BIG_FIELD_CHUNK_SIZE
      else s.sb.m_len) = DEFAULT_BIG_FIELD_CHUNK_SIZE := if_pos (by rwa [← h.holds.length])
  obtain ⟨q, hpop, hq⟩ := CUQueue.popBytesTo_popping h (by decide) ht (Nat.le_refl _)
  have heq : SendChunk accepts start s = (do
      let bytes ← onQueue (CUQueue.PopBytesTo (some DEFAULT_BIG_FIELD_CHUNK_SIZE)
        (DEFAULT_BIG_FIELD_CHUNK_SIZE : ℕ))
      SendRequest accepts (if start = true then idStartBLOB else idChunk) bytes :
        Program Bool) s := by
    rw [SendChunk, hsend]
  exact .of_eq heq (.bind_ok (onQueue_ok hpop) (sendRequest_reports _ _ ⟨hq, rfl, rfl⟩))

/-- **The loop**: chunks are sent until what is left is shorter than a chunk. -/
theorem sendChunks_reports {rounds : ℕ} {start : Bool} (h : s.sb.Popping t block e)
    (ht : DEFAULT_BIG_FIELD_CHUNK_SIZE ≤ t.length) (hrounds : t.length ≤ rounds) :
    Effect.Reports (SendChunks accepts rounds start) s
      (fun s' ↦ ∃ (chunks : List (List UInt8)) (rest : List UInt8),
        t.drop DEFAULT_BIG_FIELD_CHUNK_SIZE = chunks.flatten ++ rest ∧
        rest.length = t.length % DEFAULT_BIG_FIELD_CHUNK_SIZE ∧ s'.sb.Popping rest block e ∧
        s'.firstRow = s.firstRow ∧
        s'.sent = s.sent ++ ⟨if start = true then idStartBLOB else idChunk,
          t.take DEFAULT_BIG_FIELD_CHUNK_SIZE⟩ :: chunks.map (Frame.mk idChunk))
      (Refused accepts) := by
  have hsize : 0 < DEFAULT_BIG_FIELD_CHUNK_SIZE := by decide
  induction rounds generalizing s t start with
  | zero => omega
  | succ rounds ih =>
    have hlen := h.holds.length
    have hdrop : (t.drop DEFAULT_BIG_FIELD_CHUNK_SIZE).length =
        t.length - DEFAULT_BIG_FIELD_CHUNK_SIZE := List.length_drop
    have hmod := Nat.mod_eq_sub_mod ht
    refine .of_eq (if_pos (by omega)) ((sendChunk_reports h ht).onSuccess fun s₁ hs₁ ↦ ?_)
    obtain ⟨hpopping, hfirst, hsent⟩ := hs₁
    have hlen₁ := hpopping.holds.length
    by_cases hshort : s₁.sb.m_len < DEFAULT_BIG_FIELD_CHUNK_SIZE
    · refine .of_eq (if_pos hshort) (.of_true rfl ⟨[], _, (List.nil_append _).symm, ?_, hpopping,
        hfirst, hsent⟩)
      rw [hmod, hdrop, Nat.mod_eq_of_lt (by omega)]
    · have hlong : DEFAULT_BIG_FIELD_CHUNK_SIZE ≤ (t.drop DEFAULT_BIG_FIELD_CHUNK_SIZE).length := by
        omega
      refine .of_eq (if_neg hshort)
        ((ih hpopping hlong (by omega)).mono fun s₂ hs₂ ↦ ?_)
      obtain ⟨chunks, rest, hchunks, hrest, hpopping₂, hfirst₂, hsent₂⟩ := hs₂
      refine ⟨(t.drop DEFAULT_BIG_FIELD_CHUNK_SIZE).take DEFAULT_BIG_FIELD_CHUNK_SIZE :: chunks,
        rest, ?_, ?_, hpopping₂, hfirst₂.trans hfirst, ?_⟩
      · rw [List.flatten_cons, List.append_assoc, ← hchunks, List.take_append_drop]
      · rw [hrest, hmod, hdrop]
      · rw [hsent₂, hsent, List.append_assoc]
        rfl

/-- **`SendBlob`**: a surplus is sent if and only if the last chunk is full. -/
theorem sendBlob_reports (h : s.sb.Writable t block e)
    (ht : DEFAULT_BIG_FIELD_CHUNK_SIZE ≤ t.length) :
    Effect.Reports (SendBlob accepts) s
      (fun s' ↦ ∃ (head : List UInt8) (chunks : List (List UInt8)) (last surplus : List UInt8),
        head.length = DEFAULT_BIG_FIELD_CHUNK_SIZE ∧
        head ++ chunks.flatten ++ last = t ++ surplus ∧
        (surplus = [] ↔ ¬ DEFAULT_BIG_FIELD_CHUNK_SIZE ∣ t.length) ∧
        s'.sent = s.sent ++ blobFrames head chunks last ∧ s'.firstRow = s.firstRow ∧
        s'.sb.Writable [] block ⟨e.capacity, 0⟩)
      (Refused accepts) := by
  have hsize : 0 < DEFAULT_BIG_FIELD_CHUNK_SIZE := by decide
  have hlen := h.holds.length
  have hne : t ≠ [] := fun hnil ↦ by
    rw [hnil, List.length_nil] at ht
    omega
  have hcapacity : 0 < e.capacity := by
    have hfits := h.holds.fits_capacity
    rw [h.capacity_eq] at hfits
    omega
  refine .of_eq (if_pos (by omega)) ?_
  refine (sendChunks_reports (h.popping hne) ht hlen.le).onSuccess fun s₁ hs₁ ↦ ?_
  obtain ⟨chunks, rest, hchunks, hrest, hpopping, hfirst, hsent⟩ := hs₁
  refine (sendBuffer_reports idEndBLOB hpopping hcapacity).mono fun s₂ hs₂ ↦ ?_
  obtain ⟨surplus, hsurplus, hsent₂, hfirst₂, hq₂⟩ := hs₂
  refine ⟨t.take DEFAULT_BIG_FIELD_CHUNK_SIZE, chunks, rest ++ surplus, surplus, ?_, ?_, ?_, ?_,
    hfirst₂.trans hfirst, hq₂⟩
  · rw [List.length_take, Nat.min_eq_left ht]
  · rw [← List.append_assoc, List.append_assoc _ chunks.flatten, ← hchunks, List.take_append_drop]
  · rw [hsurplus, Nat.dvd_iff_mod_eq_zero, ← hrest, ne_eq, List.length_eq_zero_iff]
  · rw [hsent₂, hsent, List.append_assoc]
    rfl

/-! ### One parameter -/

/-- What is sent for a parameter is what is to be sent, and a surplus if and only if it spills. -/
def Carries (order : ByteOrder) (i : Value × List UInt8) : Prop :=
  ∃ surplus, i.2 = ((wire order).item i.1).2 ++ surplus ∧ (surplus = [] ↔ ¬ i.1.Spills order)

theorem carries_small {v : Value} (hsmall : v.large = false) :
    Carries order (v, v.encode order) := by
  refine ⟨[], ?_, fun _ hspills ↦ absurd (hsmall.symm.trans hspills.1) (by decide), fun _ ↦ rfl⟩
  have hitem : ((wire order).item v).2 = v.encode order :=
    if_neg (show ¬ v.large = true by rw [hsmall]; decide)
  rw [hitem, List.append_nil]

/-- A parameter that goes into the queue. -/
theorem save_reports (h : Sending order block e items s) {v : Value} (hsmall : v.large = false)
    (hpaired : v.Paired order) (he : e.writes block (v.writes order) = some e') :
    Effect.Reports (save order v) s (Sending order block e' (items ++ [(v, v.encode order)]))
      (Refused accepts) := by
  obtain ⟨t, hq, hstreamed⟩ := h
  obtain ⟨q', hsave, hq'⟩ := CUQueue.saveAll_ok hq hpaired he
  refine .bind_ok (onQueue_ok hsave) (.of_true rfl ?_)
  exact ⟨t ++ v.encode order, hq', hstreamed.pack hsmall⟩

/-- The extent after the test at the end of a round. -/
def flushedExtent (e : Extent) : Extent :=
  if DEFAULT_RECORD_BATCH_SIZE ≤ e.len then ⟨e.capacity, 0⟩ else e

theorem flushFull_reports (h : Sending order block e items s) :
    Effect.Reports (flushFull accepts) s (Sending order block (flushedExtent e) items)
      (Refused accepts) := by
  have hlen : s.sb.m_len = e.len := by
    obtain ⟨t, hq, -⟩ := h
    exact hq.len_eq
  by_cases hfull : DEFAULT_RECORD_BATCH_SIZE ≤ e.len
  · rw [flushedExtent, if_pos hfull]
    exact .of_eq (if_pos (by rwa [hlen])) ((send_reports h).mono fun _ hs' ↦ hs'.sending)
  · rw [flushedExtent, if_neg hfull]
    exact .of_eq (if_neg (by rwa [hlen])) (.of_true rfl h)

/-- A small parameter with the test behind it. -/
theorem small_reports (h : Sending order block e items s) {v : Value} (hsmall : v.large = false)
    (hflushes : v.flushes = true) (hpaired : v.Paired order)
    (he : e.parameter order block v = some e') :
    Effect.Reports ((save order v).onSuccess (flushFull accepts)) s
      (fun s' ↦ ∃ bytes, Carries order (v, bytes) ∧
        Sending order block e' (items ++ [(v, bytes)]) s') (Refused accepts) := by
  rw [Extent.parameter, if_neg (by rw [hsmall]; decide)] at he
  obtain ⟨e₁, hwrites, rfl⟩ := Option.map_eq_some_iff.1 he
  refine (save_reports h hsmall hpaired hwrites).onSuccess fun s₁ hs₁ ↦ ?_
  refine (flushFull_reports hs₁).mono fun s₂ hs₂ ↦ ⟨_, carries_small hsmall, ?_⟩
  simpa only [hflushes, true_and, flushedExtent] using hs₂

/-- A large parameter behind a flush. -/
theorem saveBlob_reports (h : Flushed order block e items s) {v : Value} (hlarge : v.large = true)
    (hbig : DEFAULT_BIG_FIELD_CHUNK_SIZE ≤ (v.encode order).length) (hpaired : v.Paired order)
    (he : e.parameter order block v = some e') :
    Effect.Reports (saveBlob accepts order (v.encode order).length v) s
      (fun s' ↦ ∃ bytes, Carries order (v, bytes) ∧
        Flushed order block e' (items ++ [(v, bytes)]) s') (Refused accepts) := by
  rw [Extent.parameter, if_pos hlarge] at he
  obtain ⟨e₂, hwrites, rfl⟩ := Option.map_eq_some_iff.1 he
  rw [Extent.writes, List.foldlM_cons] at hwrites
  obtain ⟨e₁, hnumber, hvalue⟩ := Option.bind_eq_some_iff.1 hwrites
  rw [number, Write.bytes, ByteOrder.length_bytes] at hnumber
  have hlength₄ : (number order 4 (v.encode order).length).bytes.length = 4 :=
    order.length_bytes 4 _
  have hpaired₄ : (number order 4 (v.encode order).length).Paired := trivial
  rw [← hlength₄] at hnumber
  obtain ⟨q₁, hwrite, hq₁⟩ := CUQueue.write_ok h.writable hpaired₄ hnumber
  obtain ⟨q₂, hsave, hq₂⟩ := CUQueue.saveAll_ok hq₁ hpaired hvalue
  let s₁ : ParameterSender := { s with sb := q₁ }
  let s₂ : ParameterSender := { s with sb := q₂ }
  refine .bind_ok (onQueue_ok hwrite) (.bind_ok (onQueue_ok (s := s₁) hsave) ?_)
  have hitem : ((wire order).item v).2 =
      order.bytes 4 (v.encode order).length ++ v.encode order := if_pos hlarge
  have hlength : (order.bytes 4 (v.encode order).length ++ v.encode order).length =
      (v.encode order).length + 4 := by
    rw [List.length_append, ByteOrder.length_bytes, Nat.add_comm]
  have hsent : s₂.sb.Writable
      (order.bytes 4 (v.encode order).length ++ v.encode order) block e₂ := hq₂
  refine (sendBlob_reports hsent (by omega)).mono fun s₃ hs₃ ↦ ?_
  obtain ⟨head, chunks, last, surplus, hhead, hbytes, hsurplus, hframes, hlowered, hq₃⟩ := hs₃
  refine ⟨head ++ chunks.flatten ++ last, ⟨surplus, ?_, ?_⟩, hq₃, hlowered.trans h.lowered, ?_⟩
  · rw [hitem, hbytes]
  · rw [hsurplus, hlength]
    exact ⟨fun hnot hspills ↦ hnot hspills.2, fun hnot hdvd ↦ hnot ⟨hlarge, hdvd⟩⟩
  · rw [hframes]
    refine h.framed.blob hlarge ?_
    rw [hhead]
    show 4 ≤ DEFAULT_BIG_FIELD_CHUNK_SIZE
    decide

theorem large_reports (h : Sending order block e items s) {v : Value} (hlarge : v.large = true)
    (hbig : DEFAULT_BIG_FIELD_CHUNK_SIZE ≤ (v.encode order).length) (hpaired : v.Paired order)
    (he : e.parameter order block v = some e') :
    Effect.Reports (((Send accepts).onSuccess
        (saveBlob accepts order (v.encode order).length v)).onSuccess (flushFull accepts)) s
      (fun s' ↦ ∃ bytes, Carries order (v, bytes) ∧
        Sending order block e' (items ++ [(v, bytes)]) s') (Refused accepts) := by
  have hblob : Effect.Reports ((Send accepts).onSuccess
      (saveBlob accepts order (v.encode order).length v)) s
      (fun s' ↦ ∃ bytes, Carries order (v, bytes) ∧
        Flushed order block e' (items ++ [(v, bytes)]) s') (Refused accepts) :=
    (send_reports h).onSuccess fun s₁ hs₁ ↦ saveBlob_reports hs₁ hlarge hbig hpaired he
  have hempty : e' = ⟨e'.capacity, 0⟩ := by
    rw [Extent.parameter, if_pos hlarge] at he
    obtain ⟨e₁, -, rfl⟩ := Option.map_eq_some_iff.1 he
    rfl
  refine hblob.onSuccess fun s₂ ⟨bytes, hcarries, hs₂⟩ ↦ ?_
  refine (flushFull_reports hs₂.sending).mono fun s₃ hs₃ ↦ ⟨bytes, hcarries, ?_⟩
  rw [hempty]
  exact hs₃

theorem length_encode_string {u : List UInt16} (hu : DEFAULT_BIG_FIELD_CHUNK_SIZE ≤ u.length) :
    ((Value.string u).encode order).length = u.length * 2 + 6 := by
  cases u with
  | nil => exact absurd hu (by decide)
  | cons x u =>
    simp only [Value.encode, Value.writes, stringWrites, number, List.flatMap_cons,
      List.flatMap_nil, Write.bytes, List.length_append, ByteOrder.length_bytes,
      length_utf16Bytes, List.length_nil]
    omega

theorem length_encode_bytes (a : List UInt8) :
    ((Value.bytes a).encode order).length = a.length + 6 := by
  simp only [Value.encode, Value.writes, number, List.flatMap_cons, List.flatMap_nil, Write.bytes,
    List.length_append, ByteOrder.length_bytes, List.length_nil]
  omega

/-- **One parameter.** -/
theorem parameter_reports (h : Sending order block e items s) {v : Value}
    (hpaired : v.Paired order) (he : e.parameter order block v = some e') :
    Effect.Reports (parameter accepts order v) s
      (fun s' ↦ ∃ bytes, Carries order (v, bytes) ∧
        Sending order block e' (items ++ [(v, bytes)]) s') (Refused accepts) := by
  cases v with
  | null =>
    obtain ⟨e₁, hwrites, rfl⟩ := Option.map_eq_some_iff.1 he
    exact (save_reports h rfl hpaired hwrites).mono fun s' hs' ↦ ⟨_, carries_small rfl, hs'⟩
  | string u =>
    rw [parameter]
    by_cases hu : u.length < DEFAULT_BIG_FIELD_CHUNK_SIZE
    · rw [if_pos hu]
      exact small_reports h (decide_eq_false (not_le.2 hu)) rfl hpaired he
    · have hlen : ((Value.string u).encode order).length = u.length * 2 + 6 :=
        length_encode_string (not_lt.1 hu)
      rw [if_neg hu, ← hlen]
      exact large_reports h (decide_eq_true (not_lt.1 hu)) (by omega) hpaired he
  | bytes a =>
    rw [parameter]
    by_cases ha : a.length < 2 * DEFAULT_BIG_FIELD_CHUNK_SIZE
    · rw [if_pos ha]
      exact small_reports h (decide_eq_false (not_le.2 ha)) rfl hpaired he
    · have hlen : ((Value.bytes a).encode order).length = a.length + 6 := length_encode_bytes a
      rw [if_neg ha, ← hlen]
      exact large_reports h (decide_eq_true (not_lt.1 ha)) (by omega) hpaired he
  | object => exact small_reports h rfl rfl hpaired he
  | byte b => exact small_reports h rfl rfl hpaired he
  | scalar k x => exact small_reports h rfl rfl hpaired he
  | array k a => exact small_reports h rfl rfl hpaired he
  | strings a => exact small_reports h rfl rfl hpaired he
  | objects a => exact small_reports h rfl rfl hpaired he
  | serializer ws => exact small_reports h rfl rfl hpaired he
  | serializers a => exact small_reports h rfl rfl hpaired he

/-! ### All parameters -/

theorem parameters_reports {vParam : List Value} (h : Sending order block e items s)
    (hpaired : ∀ v ∈ vParam, v.Paired order)
    (he : vParam.foldlM (Extent.parameter order block) e = some e') :
    Effect.Reports (parameters accepts order vParam) s
      (fun s' ↦ ∃ added, added.map Prod.fst = vParam ∧ (∀ i ∈ added, Carries order i) ∧
        Sending order block e' (items ++ added) s') (Refused accepts) := by
  induction vParam generalizing s e items with
  | nil =>
    obtain rfl := Option.some.inj he
    exact .of_true rfl ⟨[], rfl, nofun, by rwa [List.append_nil]⟩
  | cons v vParam ih =>
    rw [List.foldlM_cons] at he
    obtain ⟨e₁, hv, hrest⟩ := Option.bind_eq_some_iff.1 he
    refine (parameter_reports h (hpaired v List.mem_cons_self) hv).onSuccess ?_
    rintro s₁ ⟨bytes, hcarries, hs₁⟩
    refine (ih hs₁ (fun w hw ↦ hpaired w (List.mem_cons_of_mem v hw)) hrest).mono ?_
    rintro s₂ ⟨added, hadded, hall, hs₂⟩
    refine ⟨(v, bytes) :: added, by rw [List.map_cons, hadded], fun i hi ↦ ?_, ?_⟩
    · rcases List.mem_cons.1 hi with rfl | hi
      · exact hcarries
      · exact hall i hi
    · rwa [List.append_assoc] at hs₂

/-- The extents of the queue stay below `2 ^ 31`. -/
def Roomy (order : ByteOrder) (q : CUQueue) (vParam : List Value) : Prop :=
  (vParam.foldlM (Extent.parameter order q.m_blockSize) ⟨q.m_bytes.capacity, 0⟩).isSome

theorem pooled_sending {q : CUQueue} (hq : q.Pooled) :
    Sending order q.m_blockSize ⟨q.m_bytes.capacity, 0⟩ [] ⟨q, true, []⟩ := by
  have hempty : q.content = [] := by rw [CUQueue.content, hq.len_eq, slice_zero]
  have hends : q.m_bReading = true ∧ ([] : List UInt8) = [] ∨ q.m_bReading = false ∧
      q.m_bytes.position = q.m_len ∧ q.m_bytes.limit = q.m_bytes.capacity := by
    cases hr : q.m_bReading with
    | true => exact .inl ⟨rfl, rfl⟩
    | false =>
      rw [hq.cleared, hq.len_eq]
      exact .inr ⟨rfl, rfl, rfl⟩
  refine ⟨[], ⟨⟨⟨?_, hq.block_pos, hq.block_lt⟩, hempty⟩, rfl, rfl, hq.len_eq, hq.front, hends⟩,
    .init⟩
  rw [hq.front, hq.len_eq]
  exact Nat.zero_le _

/-- **What is sent for parameters**, if there are any. -/
theorem sendParametersData_reports {q : CUQueue} (hq : q.Pooled) {vParam : List Value}
    (hne : vParam ≠ []) (hpaired : ∀ v ∈ vParam, v.Paired order) (hroomy : Roomy order q vParam) :
    Effect.Reports (fun _ ↦ SendParametersData accepts order vParam q) ⟨q, true, []⟩
      (fun s' ↦ ∃ items, items.map Prod.fst = vParam ∧ (∀ i ∈ items, Carries order i) ∧
        Framed (wire order) s'.sent items) (Refused accepts) := by
  obtain ⟨e', he⟩ := Option.isSome_iff_exists.1 hroomy
  have hlen : ¬ vParam.length = 0 := fun h0 ↦ hne (List.length_eq_zero_iff.1 h0)
  refine .of_eq (if_neg hlen) ?_
  refine (parameters_reports (pooled_sending hq) hpaired he).onSuccess ?_
  rintro s₁ ⟨items, hitems, hall, hs₁⟩
  exact (send_reports hs₁).mono fun s₂ hs₂ ↦ ⟨items, hitems, hall, hs₂.framed⟩

/-- The frames for an array of parameters are exact, whatever requests the socket takes: if
`true` is returned, and if no request is refused it is. Without parameters there are no frames. -/
def ExactlySent (order : ByteOrder) (q : CUQueue) (vParam : List Value) : Prop :=
  ∀ accepts, Effect.Reports (fun _ ↦ SendParametersData accepts order vParam q) ⟨q, true, []⟩
    (fun s ↦ if vParam = [] then s.sent = [] else Exact (wire order) s.sent vParam)
    (Refused accepts)

/-- Without a spilling parameter the frames are exact. -/
theorem exactlySent {q : CUQueue} (hq : q.Pooled) {vParam : List Value}
    (hpaired : ∀ v ∈ vParam, v.Paired order) (hroomy : Roomy order q vParam)
    (hspills : ∀ v ∈ vParam, ¬ v.Spills order) : ExactlySent order q vParam := by
  intro accepts
  by_cases hne : vParam = []
  · subst hne
    exact .of_true rfl rfl
  · refine (sendParametersData_reports hq hne hpaired hroomy).mono ?_
    rintro s ⟨items, rfl, hall, hframed⟩
    rw [if_neg hne]
    refine (hframed.delivers fun i hi ↦ ?_).exact
    obtain ⟨surplus, hbytes, hsurplus⟩ := hall i hi
    rw [hsurplus.2 (hspills i.1 (List.mem_map_of_mem hi)), List.append_nil] at hbytes
    exact hbytes

/-- With a spilling parameter they are not. -/
theorem not_exactlySent {q : CUQueue} (hq : q.Pooled) {vParam : List Value}
    (hpaired : ∀ v ∈ vParam, v.Paired order) (hroomy : Roomy order q vParam) {v : Value}
    (hv : v ∈ vParam) (hspills : v.Spills order) : ¬ ExactlySent order q vParam := by
  intro hexact
  have hne : vParam ≠ [] := List.ne_nil_of_mem hv
  -- a socket that takes every request
  let accepts : ℕ → Bool := fun _ ↦ true
  obtain ⟨b, s, hrun, htrue, hfalse⟩ := hexact accepts
  obtain ⟨c, s', hrun', htrue', hfalse'⟩ :=
    @sendParametersData_reports accepts order q hq vParam hne hpaired hroomy
  obtain ⟨rfl, rfl⟩ := Outcome.ok.inj (hrun.symm.trans hrun')
  have hb : b = true := by
    rw [← Bool.not_eq_false]
    intro hb
    obtain ⟨n, hn⟩ := hfalse hb
    cases hn
  obtain ⟨items, rfl, hall, hframed⟩ := htrue' hb
  obtain ⟨i, hi, rfl⟩ := List.mem_map.1 hv
  obtain ⟨surplus, hbytes, hsurplus⟩ := hall i hi
  have hlarge : ((wire order).large i.1) = true := hspills.1
  have hsent : Exact (wire order) s.sent (items.map Prod.fst) := (if_neg hne).mp (htrue hb)
  have hdelivered := hframed.eq_of_delivers hsent.delivers i hi hlarge
  have hitem : ((wire order).item i.1).2 =
      (wire order).announce i.1 ++ (wire order).encode i.1 := if_pos hlarge
  rw [hitem, hdelivered, eq_comm, List.append_right_eq_self] at hbytes
  exact hsurplus.1 hbytes hspills

/-- The extents with a large array of bytes at the end. -/
theorem roomy_large {q : CUQueue} {vParam : List Value} {f : Extent}
    (hbefore : vParam.foldlM (Extent.parameter order q.m_blockSize) ⟨q.m_bytes.capacity, 0⟩ =
      some e)
    {a : List UInt8} (ha : 2 * DEFAULT_BIG_FIELD_CHUNK_SIZE ≤ a.length)
    (he : [4, 2, 4, a.length].foldlM (Extent.write q.m_blockSize) ⟨e.capacity, 0⟩ = some f) :
    Roomy order q (vParam ++ [.bytes a]) := by
  have hlarge : (Value.bytes a).large = true := decide_eq_true ha
  have hwrites : Extent.writes q.m_blockSize ⟨e.capacity, 0⟩
      (number order 4 0 :: (Value.bytes a).writes order) = some f := by
    rw [← he]
    simp only [Extent.writes, Value.writes, number, List.foldlM_cons, List.foldlM_nil, Write.bytes,
      ByteOrder.length_bytes]
  rw [Roomy, List.foldlM_append, hbefore]
  show (Option.bind (Extent.parameter order q.m_blockSize e (.bytes a)) _).isSome
  rw [Extent.parameter, if_pos hlarge, hwrites]
  rfl

theorem bytes_paired (a : List UInt8) : (Value.bytes a).Paired order := by
  intro w hw
  rw [Value.writes, List.mem_cons, List.mem_cons, List.mem_singleton] at hw
  obtain rfl | rfl | rfl := hw <;> trivial

end ParameterSender

end SocketPro.Java
