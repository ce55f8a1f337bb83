import Mathlib.Algebra.Order.BigOperators.Group.List
import SocketPro.Foundation.Framing
import SocketPro.Python.CUQueue

/-!
# Streaming the parameters of a statement in Python

`CAsyncDBHandler._SendParametersData` of `asyncdbhandler.py` with its functions `Send` and
`SendBlob`. One queue out of a pool serves for the row frames, for the large parameters and for
their chunks. `accepts` says which requests the socket takes, counted from the first one.

A text counts as large by its characters, and the length that is announced for it is that of two
bytes for each character. `SaveString` writes four bytes for a character outside of the Basic
Multilingual Plane.

* `pythonParameters_exact` — **the frames are exact if and only if every large text lies in that
  plane.**
-/

namespace SocketPro.Python

open Bytes Framing Machine Unicode

abbrev DEFAULT_BIG_FIELD_CHUNK_SIZE : ℕ := 16 * 1024

abbrev DEFAULT_RECORD_BATCH_SIZE : ℕ := 16 * 1024

abbrev idBeginRows : Tag := .opening

abbrev idTransferring : Tag := .rows

abbrev idStartBLOB : Tag := .start

abbrev idChunk : Tag := .chunk

abbrev idEndBLOB : Tag := .finish

section Accepted

variable (toSingle : UInt64 → Option UInt32)

/-- The objects that `SaveObject` accepts without a hint. -/
def Accepted := { v : Value // (SaveObject toSingle .other v).isSome }

variable {toSingle}

/-- What `SaveObject` writes. -/
def Accepted.writes (v : Accepted toSingle) : List Write := (SaveObject toSingle .other v.1).get v.2

/-- The bytes of a parameter. -/
def Accepted.encode (v : Accepted toSingle) : List UInt8 := v.writes.flatMap Write.bytes

/-- Whether a parameter is sent as a blob. -/
def Accepted.large (v : Accepted toSingle) : Bool :=
  match v.1 with
  | .str s => decide (2 * DEFAULT_BIG_FIELD_CHUNK_SIZE ≤ s.length * 2)
  | .bytearray a => decide (2 * DEFAULT_BIG_FIELD_CHUNK_SIZE ≤ a.length)
  | _ => false

/-- The length that is announced for a large parameter. -/
def Accepted.announced (v : Accepted toSingle) : ℕ :=
  match v.1 with
  | .str s => s.length * 2 + 6
  | .bytearray a => a.length + 6
  | _ => 0

/-- What is sent for a parameter. -/
def Accepted.sent (v : Accepted toSingle) : List UInt8 :=
  if v.large = true then leBytes 4 v.announced ++ v.encode else v.encode

end Accepted

/-! ### The sender -/

/-- The queue, the flag `_firstRow`, and the requests that have been sent. -/
structure ParameterSender where
  sb : CUQueue
  firstRow : Bool
  sent : List (Frame UInt8)

/-- A method of the handler. -/
abbrev Program (α : Type) := Effect Exception ParameterSender α

namespace ParameterSender

/-- A method of the queue. -/
def onQueue {α : Type} (x : Method α) : Program α := fun s ↦
  match x s.sb with
  | .ok a q => .ok a { s with sb := q }
  | .throw e q => .throw e { s with sb := q }
  | .fault => .fault

/-- `self._firstRow = False` -/
def lowerFirstRow : Program Unit := fun s ↦ .ok () { s with firstRow := false }

section Sending

variable (accepts : ℕ → Bool)

/-- `SendRequest(reqId, CUQueue(data), None)` -/
def SendRequest (reqId : Tag) (data : List UInt8) : Program Bool := fun s ↦
  if accepts s.sent.length = true then .ok true { s with sent := s.sent ++ [⟨reqId, data⟩] }
  else .ok false s

/-- `SendRequest(reqId, sb, None)`, with `sb.SetSize(0)` behind it. -/
def SendQueue (reqId : Tag) : Program Bool :=
  (do
    let data ← onQueue CUQueue.fromBuffer
    SendRequest accepts reqId data).onSuccess (do
      onQueue CUQueue.clear
      pure true)

/-- `Send(sb)` -/
def Send : Program Bool := fun s ↦
  if 0 < s.sb.m_len then
    if s.firstRow = true then (lowerFirstRow >>= fun _ ↦ SendQueue accepts idBeginRows) s
    else SendQueue accepts idTransferring s
  else if s.firstRow = true then
    (lowerFirstRow >>= fun _ ↦ SendRequest accepts idBeginRows []) s
  else .ok true s

/-- The loop of `SendBlob`. Every round takes a chunk, so that there are less rounds than bytes. -/
def SendChunks : ℕ → Bool → Program Bool
  | 0, _ => fun _ ↦ .fault
  | rounds + 1, start => fun s ↦
    if DEFAULT_BIG_FIELD_CHUNK_SIZE < s.sb.m_len then
      ((do
        let bytes ← onQueue (CUQueue.PopBytes DEFAULT_BIG_FIELD_CHUNK_SIZE)
        SendRequest accepts (if start = true then idStartBLOB else idChunk) bytes).onSuccess
          (SendChunks rounds false)) s
    else .ok true s

/-- `SendBlob(sb)` -/
def SendBlob : Program Bool := fun s ↦
  ((SendChunks accepts (s.sb.m_len + 1) true).onSuccess (SendQueue accepts idEndBLOB)) s

variable {toSingle : UInt64 → Option UInt32}

/-- `sb.SaveObject(vt)` -/
def save (v : Accepted toSingle) : Program Bool := do
  onQueue (CUQueue.saveAll v.writes)
  pure true

/-- `sb.SaveUInt(length).SaveObject(vt)` and `SendBlob(sb)`. -/
def saveBlob (length : ℕ) (v : Accepted toSingle) : Program Bool := do
  onQueue (CUQueue.SaveUInt length)
  onQueue (CUQueue.saveAll v.writes)
  SendBlob accepts

/-- The round of the loop for one parameter, up to the last test. -/
def put (v : Accepted toSingle) : Program Bool :=
  match v.1 with
  | .str s =>
    if s.length * 2 < 2 * DEFAULT_BIG_FIELD_CHUNK_SIZE then save v
    else (Send accepts).onSuccess (saveBlob accepts (s.length * 2 + 6) v)
  | .bytearray a =>
    if a.length < 2 * DEFAULT_BIG_FIELD_CHUNK_SIZE then save v
    else (Send accepts).onSuccess (saveBlob accepts (a.length + 6) v)
  | _ => save v

/-- The test at the end of a round. -/
def flushFull : Program Bool := fun s ↦
  if DEFAULT_RECORD_BATCH_SIZE ≤ s.sb.m_len then Send accepts s else .ok true s

/-- The loop over the parameters. -/
def parameters : List (Accepted toSingle) → Program Bool
  | [] => pure true
  | v :: vParam => ((put accepts v).onSuccess (flushFull accepts)).onSuccess (parameters vParam)

/-- `_SendParametersData(vParam)` with a queue of the pool. -/
def SendParametersData (vParam : List (Accepted toSingle)) : Program Bool :=
  (parameters accepts vParam).onSuccess (Send accepts)

end Sending

end ParameterSender

/-! ### Parameters in frames -/

variable {toSingle : UInt64 → Option UInt32}

theorem Accepted.encode_ne_nil (v : Accepted toSingle) : v.encode ≠ [] := by
  obtain ⟨vt, ws, hws⟩ := SaveObject_front (Option.some_get v.2).symm
  have hwrites : v.writes = saveVT vt :: ws := hws
  intro hnil
  rw [Accepted.encode, hwrites, List.flatMap_cons, List.append_eq_nil_iff] at hnil
  have hlen := congrArg List.length hnil.1
  rw [saveVT, Write.bytes, length_leBytes] at hlen
  cases hlen

/-- Parameters in frames: the length of a large one is announced in four bytes. -/
def wire (toSingle : UInt64 → Option UInt32) : Format (Accepted toSingle) UInt8 where
  encode := Accepted.encode
  announce v := leBytes 4 v.encode.length
  width := 4
  large := Accepted.large
  encode_ne_nil := Accepted.encode_ne_nil
  length_announce _ := length_leBytes 4 _

/-- All characters of a large text lie in the Basic Multilingual Plane. -/
def CodePoint.Basic : CodePoint → Prop
  | .char c => c.toNat < 0x10000
  | .surrogate _ => True

/-- What the parameter has to be for the right length to be announced. -/
def Accepted.Plain (v : Accepted toSingle) : Prop :=
  match v.1 with
  | .str s => 2 * DEFAULT_BIG_FIELD_CHUNK_SIZE ≤ s.length * 2 → ∀ c ∈ s, c.Basic
  | _ => True

/-! ### The lengths -/

theorem length_encodeUTF16Char (c : Char) :
    (encodeUTF16Char c).length = if c.toNat < 0x10000 then 1 else 2 := by
  rw [encodeUTF16Char]
  split <;> rfl

/-- A text has as many units as characters if and only if it lies in the plane. -/
theorem length_encodeUTF16 {s : List CodePoint} {cs : List Char} (h : chars? s = some cs) :
    s.length ≤ (encodeUTF16 cs).length ∧
      ((encodeUTF16 cs).length = s.length ↔ ∀ c ∈ s, c.Basic) := by
  induction s generalizing cs with
  | nil =>
    obtain rfl := Option.some.inj h
    exact ⟨Nat.le_refl _, fun _ ↦ nofun, fun _ ↦ rfl⟩
  | cons c s ih =>
    rw [chars?, List.mapM_cons] at h
    obtain ⟨c', hc, h⟩ := Option.bind_eq_some_iff.1 h
    obtain ⟨cs', hs, h⟩ := Option.bind_eq_some_iff.1 h
    obtain rfl := Option.some.inj h
    obtain ⟨hle, hiff⟩ := ih hs
    cases c with
    | surrogate u => cases hc
    | char d =>
      obtain rfl := Option.some.inj hc
      have hlen : (encodeUTF16 (d :: cs')).length =
          (if d.toNat < 0x10000 then 1 else 2) + (encodeUTF16 cs').length := by
        rw [encodeUTF16, List.flatMap_cons, List.length_append, length_encodeUTF16Char]
        rfl
      rw [hlen, List.length_cons, List.forall_mem_cons, ← hiff]
      show _ ∧ (_ ↔ d.toNat < 0x10000 ∧ _)
      split
      · next hd => exact ⟨by omega, fun heq ↦ ⟨hd, by omega⟩, fun heq ↦ by omega⟩
      · next hd => exact ⟨by omega, fun heq ↦ by omega, fun heq ↦ absurd heq.1 hd⟩

theorem packInt_eq {width : ℕ} {signed : Bool} {n : ℤ} {w : Write}
    (h : packInt width signed n = some w) :
    InRange width signed n ∧ w = .pack (leBytes width (n % 256 ^ width).toNat) := by
  rw [packInt] at h
  split at h
  · next hrange => exact ⟨hrange, (Option.some.inj h).symm⟩
  · cases h

/-- The bytes of a text are two for each unit. -/
theorem Accepted.length_encode_str {v : Accepted toSingle} {s : List CodePoint}
    (hv : v.1 = .str s) :
    ∃ cs, chars? s = some cs ∧ v.encode.length = (encodeUTF16 cs).length * 2 + 6 := by
  have hsave : SaveObject toSingle .other (.str s) = some v.writes := by
    rw [← hv]
    exact (Option.some_get v.2).symm
  rw [SaveObject, if_neg (by decide)] at hsave
  obtain ⟨w, hw, hwrites⟩ := Option.bind_eq_some_iff.1 hsave
  obtain ⟨cs, hcs, hw⟩ := Option.bind_eq_some_iff.1 hw
  refine ⟨cs, hcs, ?_⟩
  rw [saveText] at hw
  split at hw
  · obtain rfl := Option.some.inj hw
    rw [Accepted.encode, ← Option.some.inj hwrites]
    simp only [saveVT, List.flatMap_cons, List.flatMap_nil, Write.bytes, List.length_append,
      length_leBytes, length_utf16Bytes, List.length_nil]
    omega
  · cases hw

theorem Accepted.length_encode_bytearray {v : Accepted toSingle} {a : List UInt8}
    (hv : v.1 = .bytearray a) : v.encode.length = a.length + 6 := by
  have hsave : SaveObject toSingle .other (.bytearray a) = some v.writes := by
    rw [← hv]
    exact (Option.some_get v.2).symm
  rw [SaveObject] at hsave
  obtain ⟨w, hw, hwrites⟩ := Option.bind_eq_some_iff.1 hsave
  obtain ⟨-, rfl⟩ := packInt_eq hw
  rw [Accepted.encode, ← Option.some.inj hwrites]
  simp only [saveVT, List.flatMap_cons, List.flatMap_nil, Write.bytes, List.length_append,
    length_leBytes, List.length_nil]
  omega

/-- **The announced length** of a large parameter is not too large, and right if and only if the
parameter is plain. -/
theorem Accepted.announced_eq {v : Accepted toSingle} (hlarge : v.large = true) :
    v.announced ≤ v.encode.length ∧ 2 * DEFAULT_BIG_FIELD_CHUNK_SIZE ≤ v.encode.length ∧
      (v.announced = v.encode.length ↔ v.Plain) := by
  rw [Accepted.large] at hlarge
  rw [Accepted.announced, Accepted.Plain]
  split at hlarge
  · next s hv =>
    obtain ⟨cs, hcs, hlen⟩ := v.length_encode_str hv
    obtain ⟨hle, hiff⟩ := length_encodeUTF16 hcs
    have hbig := of_decide_eq_true hlarge
    rw [hv, hlen]
    refine ⟨by omega, by omega, ?_⟩
    dsimp only
    rw [← hiff]
    exact ⟨fun heq _ ↦ by omega, fun heq ↦ by rw [heq hbig]⟩
  · next a hv =>
    have hlen := v.length_encode_bytearray hv
    have hbig := of_decide_eq_true hlarge
    rw [hv]
    exact ⟨hlen.ge, by omega, fun _ ↦ trivial, fun _ ↦ hlen.symm⟩
  · cases hlarge

/-! ### Requests -/

namespace ParameterSender

/-- Some request is refused. -/
def Refused (accepts : ℕ → Bool) : Prop := ∃ n, accepts n = false

variable {accepts : ℕ → Bool} {s : ParameterSender} {t : List UInt8}
  {items : List (Accepted toSingle × List UInt8)}

theorem onQueue_ok {α : Type} {x : Method α} {a : α} {q : CUQueue} (h : x s.sb = .ok a q) :
    onQueue x s = .ok a { s with sb := q } := by
  rw [onQueue, h]

/-- A request is sent, or refused. -/
theorem sendRequest_reports (reqId : Tag) (data : List UInt8) {Q : ParameterSender → Prop}
    (hQ : Q { s with sent := s.sent ++ [⟨reqId, data⟩] }) :
    Effect.Reports (SendRequest accepts reqId data) s Q (Refused accepts) := by
  by_cases haccepts : accepts s.sent.length = true
  · exact .of_true (if_pos haccepts) hQ
  · exact .of_false (if_neg haccepts) ⟨s.sent.length, Bool.eq_false_iff.2 haccepts⟩

/-- A request with all of the queue, which is empty afterwards. -/
theorem sendQueue_reports (reqId : Tag) (h : s.sb.Holds t) :
    Effect.Reports (SendQueue accepts reqId) s
      (fun s' ↦ s'.sb.Holds [] ∧ s'.firstRow = s.firstRow ∧ s'.sent = s.sent ++ [⟨reqId, t⟩])
      (Refused accepts) := by
  let s₁ : ParameterSender := { s with sent := s.sent ++ [⟨reqId, t⟩] }
  refine .onSuccess (Q := fun s' ↦ s' = s₁) ?_ fun s' hs' ↦ ?_
  · exact .bind_ok (onQueue_ok (CUQueue.fromBuffer_ok h)) (sendRequest_reports reqId t rfl)
  · subst hs'
    obtain ⟨q, hclear, hq⟩ := CUQueue.clear_ok s₁.sb
    exact .bind_ok (onQueue_ok hclear) (.of_true rfl ⟨hq, rfl, rfl⟩)

/-! ### Between two parameters -/

/-- After some items: what is pending of them is in the queue. -/
structure Sending (items : List (Accepted toSingle × List UInt8)) (s : ParameterSender) :
    Prop where
  pending : ∃ t, s.sb.Holds t ∧ Streamed (wire toSingle) s.sent t s.firstRow items

/-- After a flush: nothing is pending. -/
structure Flushed (items : List (Accepted toSingle × List UInt8)) (s : ParameterSender) :
    Prop where
  holds : s.sb.Holds []
  lowered : s.firstRow = false
  framed : Framed (wire toSingle) s.sent items

theorem Flushed.sending (h : Flushed items s) : Sending items s :=
  ⟨[], h.holds, h.lowered ▸ h.framed.streamed⟩

/-- **`Send`** -/
theorem send_reports (h : Sending items s) :
    Effect.Reports (Send accepts) s (Flushed items) (Refused accepts) := by
  obtain ⟨t, hq, hstreamed⟩ := h
  have hframed := hstreamed.flush
  have hlen := hq.length
  let s₁ : ParameterSender := { s with firstRow := false }
  by_cases hpos : 0 < s.sb.m_len
  · have hne : t ≠ [] := fun hnil ↦ by
      rw [hnil, List.length_nil] at hlen
      omega
    have hflush : Framing.flush t s.firstRow =
        [⟨if s.firstRow = true then .opening else .rows, t⟩] := if_pos hne
    rw [hflush] at hframed
    by_cases hfirst : s.firstRow = true
    · rw [if_pos hfirst] at hframed
      refine .of_eq ((if_pos hpos).trans (if_pos hfirst)) (.bind_ok (t := s₁) rfl ?_)
      refine (sendQueue_reports (s := s₁) idBeginRows hq).mono ?_
      rintro s' ⟨hq', hlow, hsent⟩
      exact ⟨hq', hlow, hsent ▸ hframed⟩
    · rw [if_neg hfirst] at hframed
      refine .of_eq ((if_pos hpos).trans (if_neg hfirst)) ?_
      refine (sendQueue_reports idTransferring hq).mono ?_
      rintro s' ⟨hq', hlow, hsent⟩
      exact ⟨hq', hlow.trans (Bool.eq_false_iff.2 hfirst), hsent ▸ hframed⟩
  · obtain rfl : t = [] :=
      List.length_eq_zero_iff.1 (hlen.trans (Nat.eq_zero_of_not_pos hpos))
    by_cases hfirst : s.firstRow = true
    · rw [Framing.flush, if_neg (fun hne ↦ hne rfl), if_pos hfirst] at hframed
      refine .of_eq ((if_neg hpos).trans (if_pos hfirst)) (.bind_ok (t := s₁) rfl ?_)
      exact sendRequest_reports (s := s₁) idBeginRows [] ⟨hq, rfl, hframed⟩
    · rw [Framing.flush, if_neg (fun hne ↦ hne rfl), if_neg hfirst, List.append_nil] at hframed
      refine .of_eq ((if_neg hpos).trans (if_neg hfirst)) (.of_true rfl ?_)
      exact ⟨hq, Bool.eq_false_iff.2 hfirst, hframed⟩

/-! ### A blob -/

/-- **The loop**: chunks are sent until what is left is no longer than a chunk. The first of them
bears the tag of the start. -/
theorem sendChunks_reports {rounds : ℕ} {start : Bool} (h : s.sb.Holds t)
    (hrounds : t.length < rounds) :
    Effect.Reports (SendChunks accepts rounds start) s
      (fun s' ↦ ∃ (chunks : List (List UInt8)) (rest : List UInt8), t = chunks.flatten ++ rest ∧
        (DEFAULT_BIG_FIELD_CHUNK_SIZE < t.length →
          chunks.head? = some (t.take DEFAULT_BIG_FIELD_CHUNK_SIZE)) ∧
        s'.sb.Holds rest ∧ s'.firstRow = s.firstRow ∧
        s'.sent = s.sent ++ (match chunks with
          | [] => []
          | chunk :: chunks => ⟨if start = true then idStartBLOB else idChunk, chunk⟩ ::
              chunks.map (Frame.mk idChunk)))
      (Refused accepts) := by
  have hsize : 0 < DEFAULT_BIG_FIELD_CHUNK_SIZE := by decide
  induction rounds generalizing s t start with
  | zero => omega
  | succ rounds ih =>
    have hlen := h.length
    by_cases hlong : DEFAULT_BIG_FIELD_CHUNK_SIZE < s.sb.m_len
    · obtain ⟨q, hpop, hq⟩ := CUQueue.PopBytes_ok h hsize (hlong.le.trans_eq hlen.symm)
      let s₁ : ParameterSender := { s with sb := q }
      let frame : Frame UInt8 := ⟨if start = true then idStartBLOB else idChunk,
        t.take DEFAULT_BIG_FIELD_CHUNK_SIZE⟩
      let s₂ : ParameterSender := { s₁ with sent := s.sent ++ [frame] }
      refine .of_eq (if_pos hlong) (.onSuccess (Q := fun s' ↦ s' = s₂) ?_ fun s' hs' ↦ ?_)
      · exact .bind_ok (onQueue_ok hpop) (sendRequest_reports (s := s₁) _ _ rfl)
      · subst hs'
        have hdrop : (t.drop DEFAULT_BIG_FIELD_CHUNK_SIZE).length < rounds := by
          rw [List.length_drop]
          omega
        refine (ih (s := s₂) hq hdrop).mono ?_
        rintro s₃ ⟨chunks, rest, hchunks, -, hrest, hfirst, hsent⟩
        refine ⟨t.take DEFAULT_BIG_FIELD_CHUNK_SIZE :: chunks, rest, ?_, fun _ ↦ rfl, hrest,
          hfirst, ?_⟩
        · rw [List.flatten_cons, List.append_assoc, ← hchunks, List.take_append_drop]
        · rw [hsent]
          cases chunks with
          | nil => rw [List.append_nil]; rfl
          | cons chunk chunks =>
            rw [List.append_assoc]
            rfl
    · refine .of_eq (if_neg hlong) (.of_true rfl ⟨[], t, rfl, fun hmore ↦ ?_, h, rfl, ?_⟩)
      · omega
      · exact (List.append_nil _).symm

/-- **`SendBlob`** of more than a chunk. -/
theorem sendBlob_reports (h : s.sb.Holds t) (ht : DEFAULT_BIG_FIELD_CHUNK_SIZE < t.length) :
    Effect.Reports (SendBlob accepts) s
      (fun s' ↦ ∃ (head : List UInt8) (chunks : List (List UInt8)) (last : List UInt8),
        head.length = DEFAULT_BIG_FIELD_CHUNK_SIZE ∧ head ++ chunks.flatten ++ last = t ∧
        s'.sent = s.sent ++ blobFrames head chunks last ∧ s'.firstRow = s.firstRow ∧
        s'.sb.Holds [])
      (Refused accepts) := by
  have hrounds : t.length < s.sb.m_len + 1 := by rw [h.length]; exact Nat.lt_succ_self _
  refine (sendChunks_reports h hrounds).onSuccess ?_
  rintro s₁ ⟨chunks, rest, hchunks, hhead, hrest, hfirst, hsent⟩
  refine (sendQueue_reports idEndBLOB hrest).mono ?_
  rintro s₂ ⟨hq₂, hfirst₂, hsent₂⟩
  cases chunks with
  | nil => cases hhead ht
  | cons head chunks =>
    obtain rfl := Option.some.inj (hhead ht)
    refine ⟨t.take DEFAULT_BIG_FIELD_CHUNK_SIZE, chunks, rest, ?_, ?_, ?_,
      hfirst₂.trans hfirst, hq₂⟩
    · rw [List.length_take, Nat.min_eq_left ht.le]
    · rw [← List.flatten_cons, ← hchunks]
    · rw [hsent₂, hsent, List.append_assoc]
      rfl

/-! ### One parameter -/

/-- A parameter that goes into the queue. -/
theorem save_reports (h : Sending items s) {v : Accepted toSingle} (hsmall : v.large = false) :
    Effect.Reports (save v) s (Sending (items ++ [(v, v.encode)])) (Refused accepts) := by
  obtain ⟨t, hq, hstreamed⟩ := h
  obtain ⟨q', hsave, hq'⟩ := CUQueue.saveAll_ok hq v.writes
  refine .bind_ok (onQueue_ok hsave) (.of_true rfl ?_)
  exact ⟨t ++ v.encode, hq', hstreamed.pack hsmall⟩

theorem flushFull_reports (h : Sending items s) :
    Effect.Reports (flushFull accepts) s (Sending items) (Refused accepts) := by
  by_cases hfull : DEFAULT_RECORD_BATCH_SIZE ≤ s.sb.m_len
  · exact .of_eq (if_pos hfull) ((send_reports h).mono fun _ hs' ↦ hs'.sending)
  · exact .of_eq (if_neg hfull) (.of_true rfl h)

/-- A large parameter behind a flush. -/
theorem saveBlob_reports (h : Flushed items s) {v : Accepted toSingle} (hlarge : v.large = true)
    (hlt : v.encode.length < 2 ^ 31) :
    Effect.Reports (saveBlob accepts v.announced v) s
      (Sending (items ++ [(v, leBytes 4 v.announced ++ v.encode)])) (Refused accepts) := by
  obtain ⟨hannounced, hbig, -⟩ := Accepted.announced_eq hlarge
  have hfits : v.announced < 2 ^ 32 := by omega
  obtain ⟨q₁, hwrite, hq₁⟩ := CUQueue.SaveUInt_ok h.holds hfits
  obtain ⟨q₂, hsave, hq₂⟩ := CUQueue.saveAll_ok hq₁ v.writes
  let s₁ : ParameterSender := { s with sb := q₁ }
  let s₂ : ParameterSender := { s with sb := q₂ }
  have hsent : s₂.sb.Holds (leBytes 4 v.announced ++ v.encode) := hq₂
  have hlong : DEFAULT_BIG_FIELD_CHUNK_SIZE < (leBytes 4 v.announced ++ v.encode).length := by
    rw [List.length_append]
    exact lt_of_lt_of_le (by decide) (hbig.trans (Nat.le_add_left _ _))
  refine .bind_ok (onQueue_ok hwrite) (.bind_ok (onQueue_ok (s := s₁) hsave) ?_)
  refine (sendBlob_reports hsent hlong).mono ?_
  rintro s₃ ⟨head, chunks, last, hhead, hbytes, hframes, hlowered, hq₃⟩
  refine ⟨[], hq₃, ?_⟩
  have hwidth : (wire toSingle).width ≤ head.length := by
    rw [hhead]
    show 4 ≤ DEFAULT_BIG_FIELD_CHUNK_SIZE
    decide
  have hframed : Framed (wire toSingle) (s.sent ++ blobFrames head chunks last)
      (items ++ [(v, head ++ chunks.flatten ++ last)]) := h.framed.blob hlarge hwidth
  rw [hbytes] at hframed
  rw [hlowered, h.lowered, hframes]
  exact hframed.streamed

/-- **One parameter**, up to the last test. -/
theorem put_reports (h : Sending items s) {v : Accepted toSingle} (hlt : v.encode.length < 2 ^ 31) :
    Effect.Reports (put accepts v) s (Sending (items ++ [(v, v.sent)])) (Refused accepts) := by
  have hsmall : v.large = false →
      Effect.Reports (save v) s (Sending (items ++ [(v, v.sent)])) (Refused accepts) := by
    intro hsmall
    rw [Accepted.sent, if_neg (by rw [hsmall]; decide)]
    exact save_reports h hsmall
  have hlarge : v.large = true → ∀ length, v.announced = length →
      Effect.Reports ((Send accepts).onSuccess (saveBlob accepts length v)) s
        (Sending (items ++ [(v, v.sent)])) (Refused accepts) := by
    rintro hlarge length rfl
    rw [Accepted.sent, if_pos hlarge]
    exact (send_reports h).onSuccess fun s₁ hs₁ ↦ saveBlob_reports hs₁ hlarge hlt
  rw [put]
  split
  · next u hv =>
    have hdecide : v.large = decide (2 * DEFAULT_BIG_FIELD_CHUNK_SIZE ≤ u.length * 2) := by
      rw [Accepted.large, hv]
    split
    · next hu => exact hsmall (hdecide.trans (decide_eq_false (not_le.2 hu)))
    · next hu =>
      refine hlarge (hdecide.trans (decide_eq_true (not_lt.1 hu))) _ ?_
      rw [Accepted.announced, hv]
  · next a hv =>
    have hdecide : v.large = decide (2 * DEFAULT_BIG_FIELD_CHUNK_SIZE ≤ a.length) := by
      rw [Accepted.large, hv]
    split
    · next ha => exact hsmall (hdecide.trans (decide_eq_false (not_le.2 ha)))
    · next ha =>
      refine hlarge (hdecide.trans (decide_eq_true (not_lt.1 ha))) _ ?_
      rw [Accepted.announced, hv]
  · next hstr hbytes =>
    refine hsmall ?_
    rw [Accepted.large]
    split
    · next u hv => exact absurd hv (hstr u)
    · next a hv => exact absurd hv (hbytes a)
    · rfl

/-! ### All parameters -/

theorem parameters_reports {vParam : List (Accepted toSingle)} (h : Sending items s)
    (hlt : ∀ v ∈ vParam, v.encode.length < 2 ^ 31) :
    Effect.Reports (parameters accepts vParam) s
      (Sending (items ++ vParam.map fun v ↦ (v, v.sent))) (Refused accepts) := by
  induction vParam generalizing s items with
  | nil =>
    rw [List.map_nil, List.append_nil]
    exact .of_true rfl h
  | cons v vParam ih =>
    have hput : Effect.Reports (put accepts v) s (Sending (items ++ [(v, v.sent)]))
        (Refused accepts) := put_reports h (hlt v List.mem_cons_self)
    have hround := hput.onSuccess fun s₁ hs₁ ↦ flushFull_reports hs₁
    refine hround.onSuccess fun s₂ hs₂ ↦ ?_
    rw [List.map_cons, List.append_cons]
    exact ih hs₂ fun w hw ↦ hlt w (List.mem_cons_of_mem v hw)

/-- A queue that has been unlocked. -/
structure Pooled (q : CUQueue) : Prop where
  len_eq : q.m_len = 0
  front : q.m_position = 0

/-- **What is sent for parameters.** -/
theorem sendParametersData_reports {q : CUQueue} (hq : Pooled q)
    {vParam : List (Accepted toSingle)} (hlt : ∀ v ∈ vParam, v.encode.length < 2 ^ 31) :
    Effect.Reports (SendParametersData accepts vParam) ⟨q, true, []⟩
      (fun s ↦ Framed (wire toSingle) s.sent (vParam.map fun v ↦ (v, v.sent)))
      (Refused accepts) := by
  have hholds : q.Holds [] := by
    refine ⟨?_, ?_⟩
    · rw [hq.len_eq, hq.front]
      exact Nat.zero_le _
    · rw [CUQueue.content, hq.len_eq, Block.slice_zero]
  have hstart : Sending ([] : List (Accepted toSingle × List UInt8)) ⟨q, true, []⟩ :=
    ⟨[], hholds, .init⟩
  refine (parameters_reports hstart hlt).onSuccess fun s₁ hs₁ ↦ ?_
  exact (send_reports hs₁).mono fun s₂ hs₂ ↦ hs₂.framed

/-- The frames for a list of parameters are exact, whatever requests the socket takes: if `True` is
returned, and if no request is refused it is. -/
def ExactlySent (q : CUQueue) (vParam : List (Accepted toSingle)) : Prop :=
  ∀ accepts, Effect.Reports (SendParametersData accepts vParam) ⟨q, true, []⟩
    (fun s ↦ Exact (wire toSingle) s.sent vParam) (Refused accepts)

theorem length_lt_of_sum {vParam : List (Accepted toSingle)}
    (hsum : (vParam.map fun v ↦ v.encode.length).sum < 2 ^ 31) :
    ∀ v ∈ vParam, v.encode.length < 2 ^ 31 := fun _ hv ↦
  (List.single_le_sum (fun _ _ ↦ Nat.zero_le _) _ (List.mem_map_of_mem hv)).trans_lt hsum

/-- With a large text outside of the plane the frames are not exact. -/
theorem not_exactlySent {q : CUQueue} (hq : Pooled q) {vParam : List (Accepted toSingle)}
    (hsum : (vParam.map fun v ↦ v.encode.length).sum < 2 ^ 31) {v : Accepted toSingle}
    (hv : v ∈ vParam) (hplain : ¬ v.Plain) : ¬ ExactlySent q vParam := by
  intro hexact
  -- a socket that takes every request
  let accepts : ℕ → Bool := fun _ ↦ true
  obtain ⟨b, s, hrun, htrue, hfalse⟩ := hexact accepts
  obtain ⟨c, s', hrun', htrue', -⟩ : Effect.Reports (SendParametersData accepts vParam) _ _ _ :=
    sendParametersData_reports hq (length_lt_of_sum hsum)
  obtain ⟨rfl, rfl⟩ := Outcome.ok.inj (hrun.symm.trans hrun')
  have hb : b = true := by
    rw [← Bool.not_eq_false]
    intro hb
    obtain ⟨n, hn⟩ := hfalse hb
    cases hn
  have hlarge : v.large = true := by
    rw [← Bool.not_eq_false]
    intro hsmall
    refine hplain ?_
    rw [Accepted.large] at hsmall
    rw [Accepted.Plain]
    split
    · next u hu =>
      rw [hu] at hsmall
      exact fun hlong ↦ absurd hlong (of_decide_eq_false hsmall)
    · trivial
  have hfst : (vParam.map fun v ↦ (v, v.sent)).map Prod.fst = vParam := by
    rw [List.map_map]
    exact List.map_id vParam
  have hdelivers := (htrue hb).delivers
  rw [← hfst] at hdelivers
  have hbytes := (htrue' hb).eq_of_delivers hdelivers (v, v.sent) (List.mem_map_of_mem hv) hlarge
  have hsent : leBytes 4 v.announced ++ v.encode = leBytes 4 v.encode.length ++ v.encode := by
    rw [Accepted.sent, if_pos hlarge] at hbytes
    exact hbytes
  -- four bytes tell the two lengths apart
  obtain ⟨hannounced, -, hiff⟩ := Accepted.announced_eq hlarge
  have hlt := length_lt_of_sum hsum v hv
  have hnumbers := congrArg ofLE (List.append_cancel_right hsent)
  rw [ofLE_leBytes_of_lt (by omega), ofLE_leBytes_of_lt (by omega)] at hnumbers
  exact hplain (hiff.1 hnumbers)

/-- **The frames are exact if and only if every large text lies in the plane.** -/
theorem pythonParameters_exact {q : CUQueue} (hq : Pooled q) {vParam : List (Accepted toSingle)}
    (hsum : (vParam.map fun v ↦ v.encode.length).sum < 2 ^ 31) :
    ExactlySent q vParam ↔ ∀ v ∈ vParam, v.Plain := by
  refine ⟨fun hexact v hv ↦ by_contra fun hplain ↦ not_exactlySent hq hsum hv hplain hexact,
    fun hplain accepts ↦ ?_⟩
  refine (sendParametersData_reports hq (length_lt_of_sum hsum)).mono fun s hframed ↦ ?_
  have hfst : (vParam.map fun v ↦ (v, v.sent)).map Prod.fst = vParam := by
    rw [List.map_map]
    exact List.map_id vParam
  have hdelivers := hframed.delivers fun i hi ↦ by
    obtain ⟨v, hv, rfl⟩ := List.mem_map.1 hi
    show v.sent = if v.large = true then leBytes 4 v.encode.length ++ v.encode else v.encode
    rw [Accepted.sent]
    split
    · next hlarge => rw [(Accepted.announced_eq hlarge).2.2.2 (hplain v hv)]
    · rfl
  rw [hfst] at hdelivers
  exact hdelivers.exact

/-! ### Texts -/

theorem chars?_map (cs : List Char) : chars? (cs.map .char) = some cs := by
  induction cs with
  | nil => rfl
  | cons c cs ih =>
    rw [chars?, List.map_cons, List.mapM_cons, ← chars?, ih]
    rfl

theorem length_encodeUTF16_le (cs : List Char) : (encodeUTF16 cs).length ≤ cs.length * 2 := by
  induction cs with
  | nil => exact Nat.le_refl _
  | cons c cs ih =>
    rw [encodeUTF16, List.flatMap_cons, List.length_append, length_encodeUTF16Char, ← encodeUTF16,
      List.length_cons]
    split <;> omega

/-- A text that is not too long for the number of its bytes. -/
def ofText (cs : List Char) (h : cs.length < 2 ^ 30) : Accepted toSingle :=
  ⟨.str (cs.map .char), by
    have hle := length_encodeUTF16_le cs
    have hfits : (utf16Bytes (encodeUTF16 cs)).length < 2 ^ 32 := by
      rw [length_utf16Bytes]
      omega
    have hsave : SaveString (cs.map .char) = some (.pack
        (leBytes 4 (utf16Bytes (encodeUTF16 cs)).length ++ utf16Bytes (encodeUTF16 cs))) := by
      rw [SaveString, chars?_map]
      exact if_pos hfits
    rw [SaveObject, if_neg (by decide), hsave]
    rfl⟩

theorem length_encode_ofText {cs : List Char} {h : cs.length < 2 ^ 30} :
    (ofText cs h : Accepted toSingle).encode.length ≤ cs.length * 4 + 6 := by
  obtain ⟨cs', hcs, hlen⟩ :=
    Accepted.length_encode_str (v := (ofText cs h : Accepted toSingle)) rfl
  obtain rfl := Option.some.inj ((chars?_map cs).symm.trans hcs)
  have hle := length_encodeUTF16_le cs
  omega

/-- `None` -/
def ofNone : Accepted toSingle := ⟨.none, by rw [SaveObject]; rfl⟩

theorem length_encode_ofNone : (ofNone : Accepted toSingle).encode.length = 2 := by
  have hsave : SaveObject toSingle .other .none = some [saveVT sdVT_NULL] := by rw [SaveObject]
  have hwrites : (ofNone : Accepted toSingle).writes = [saveVT sdVT_NULL] :=
    Option.some.inj ((Option.some_get _).trans hsave)
  rw [Accepted.encode, hwrites]
  rfl

/-- `CUQueue()`, before anything has been written. -/
def emptyQueue : CUQueue := ⟨List.replicate 4096 0, 0, 0, 4096⟩

theorem emptyQueue_pooled : Pooled emptyQueue := ⟨rfl, rfl⟩

/-- A greeting, `None`, and a text of sixteen thousand and some letters. -/
theorem pythonParameters_exact_three :
    ExactlySent emptyQueue ([ofText "Hi".toList (by decide), ofNone,
        ofText (List.replicate 16384 'a') (by rw [List.length_replicate]; decide)] :
        List (Accepted fun _ ↦ none)) ↔
      ∀ v ∈ ([ofText "Hi".toList (by decide), ofNone,
        ofText (List.replicate 16384 'a') (by rw [List.length_replicate]; decide)] :
        List (Accepted fun _ ↦ none)), v.Plain := by
  refine pythonParameters_exact emptyQueue_pooled ?_
  have hfirst : (ofText "Hi".toList (by decide) : Accepted fun _ ↦ none).encode.length ≤ 14 :=
    length_encode_ofText
  have hlast : (ofText (List.replicate 16384 'a') (by rw [List.length_replicate]; decide) :
      Accepted fun _ ↦ none).encode.length ≤ _ := length_encode_ofText
  have hlength : (List.replicate 16384 'a').length = 16384 := List.length_replicate
  rw [List.map_cons, List.map_cons, List.map_singleton, List.sum_cons, List.sum_cons,
    List.sum_singleton, length_encode_ofNone]
  omega

/-- A large text outside of the plane is announced with half of its length. -/
theorem sent_with_half_length :
    ¬ ∀ (toSingle : UInt64 → Option UInt32) (q : CUQueue) (vParam : List (Accepted toSingle)),
      Pooled q → (vParam.map fun v ↦ v.encode.length).sum < 2 ^ 31 → ExactlySent q vParam := by
  intro h
  obtain ⟨cs, hlength, hcs⟩ : ∃ cs : List Char, cs.length = 16384 ∧ '😀' ∈ cs :=
    ⟨List.replicate 16384 '😀', List.length_replicate,
      List.mem_replicate.2 ⟨by decide, rfl⟩⟩
  have hshort : cs.length < 2 ^ 30 := by omega
  let toSingle : UInt64 → Option UInt32 := fun _ ↦ none
  let v : Accepted toSingle := ofText cs hshort
  have hencoded : v.encode.length ≤ cs.length * 4 + 6 := length_encode_ofText
  have hsum : ([v].map fun v ↦ v.encode.length).sum < 2 ^ 31 := by
    rw [List.map_singleton, List.sum_singleton]
    omega
  have hplain : ¬ v.Plain := fun hplain ↦ by
    have hbasic := hplain (by rw [List.length_map, hlength]; decide) _ (List.mem_map_of_mem hcs)
    have hlt : '😀'.toNat < 0x10000 := hbasic
    exact absurd hlt (by decide)
  exact not_exactlySent emptyQueue_pooled hsum List.mem_cons_self hplain
    (h toSingle emptyQueue [v] emptyQueue_pooled hsum)

end ParameterSender

end SocketPro.Python
