import SocketPro.Database.RowFrames

/-!
# Streaming the parameters of a statement

`CAsyncDBHandler::SendParametersData` of `udb_client.h` with `Send` and `SendBlob`. Parameters are
packed into one buffer that is sent when it holds `DEFAULT_RECORD_BATCH_SIZE` bytes, when a large
parameter follows, and at the end; the first row frame is an `idBeginRows`, even where nothing has
been packed before the first large parameter. The model yields the frames in order, every
`SendRequest` being accepted.

The receiver takes the fields out of the row frames and puts the large ones together as
`CAsyncDBHandler::OnResultReturned` does.

**What has been sent** is described by `Segment`s: whole fields in a row frame, or one field cut
into a blob. `Opened` says that the frames are one `idBeginRows` followed by segments, and
`Streamed` what holds between two parameters. All properties of the stream are read off the
segments.
-/

namespace SocketPro.Database

open Bytes Buffer Machine

abbrev DEFAULT_RECORD_BATCH_SIZE : ℕ := 16 * 1024

/-! ### The sender -/

/-- The requests sent, the buffer and the flag of `SendParametersData`. -/
structure ParameterSender where
  sent : List Frame
  sb : List UInt8
  firstRow : Bool

namespace ParameterSender

/-- `sb << vt`. -/
def pack (p : ParameterSender) (vt : CDBVariant) : ParameterSender :=
  { p with sb := p.sb ++ vt.bytes }

/-- `Send(sb, firstRow)`. -/
def Send (p : ParameterSender) : ParameterSender :=
  if p.sb.length ≠ 0 then
    ⟨p.sent ++ [⟨if p.firstRow then .idBeginRows else .idTransferring, p.sb⟩], [], false⟩
  else if p.firstRow then ⟨p.sent ++ [⟨.idBeginRows, []⟩], p.sb, false⟩
  else p

end ParameterSender

/-- The loop of `SendBlob(sb)` and the `idEndBLOB` behind it. -/
def sendBlobLoop (start : Bool) (sb : List UInt8) : List Frame :=
  if 0 < sb.length then
    let send := if DEFAULT_BIG_FIELD_CHUNK_SIZE ≤ sb.length then DEFAULT_BIG_FIELD_CHUNK_SIZE
      else sb.length
    let rest := sb.drop send
    ⟨if start then .idStartBLOB else .idChunk, sb.take send⟩ ::
      if rest.length < DEFAULT_BIG_FIELD_CHUNK_SIZE then [⟨.idEndBLOB, rest⟩]
      else sendBlobLoop false rest
  else [⟨.idEndBLOB, sb⟩]
termination_by sb.length
decreasing_by
  have hpos : 0 < DEFAULT_BIG_FIELD_CHUNK_SIZE := by decide
  rw [List.length_drop]
  split <;> omega

/-- `SendBlob(sb)`. -/
def SendBlob (sb : List UInt8) : List Frame :=
  if 0 < sb.length then sendBlobLoop true sb else []

/-- `sb << len << vt` with `len` replaced by the number of bytes behind it. -/
def blobBuffer (sb : List UInt8) (vt : CDBVariant) : List UInt8 :=
  let sb := sb ++ leBytes 4 0 ++ vt.bytes
  leBytes 4 (sb.length - 4) ++ sb.drop 4

namespace ParameterSender

/-- A large parameter. -/
def blob (p : ParameterSender) (vt : CDBVariant) : ParameterSender :=
  { p.Send with
    sent := p.Send.sent ++ Database.SendBlob (blobBuffer p.Send.sb vt)
    sb := [] }

/-- The body of the loop, up to the last test. -/
def put (p : ParameterSender) (vt : CDBVariant) : ParameterSender :=
  match vt.value with
  | .bstr bstrVal =>
    if SysStringLen bstrVal < DEFAULT_BIG_FIELD_CHUNK_SIZE then p.pack vt else p.blob vt
  | .scalarArray t cElements _ =>
    if t = .UI1 ∨ t = .I1 then
      if cElements < 2 * DEFAULT_BIG_FIELD_CHUNK_SIZE then p.pack vt else p.blob vt
    -- An assertion fails here; without assertions the parameter is left out.
    else p
  | .bstrArray _ | .variantArray _ | .unsupportedArray _ _ => p
  | _ => p.pack vt

/-- The body of the loop. -/
def parameter (p : ParameterSender) (vt : CDBVariant) : ParameterSender :=
  if DEFAULT_RECORD_BATCH_SIZE ≤ (p.put vt).sb.length then (p.put vt).Send else p.put vt

end ParameterSender

/-- `SendParametersData(sb, vParam)`. -/
def SendParametersData (vParam : List CDBVariant) : List Frame :=
  if vParam.length ≠ 0 then (vParam.foldl ParameterSender.parameter ⟨[], [], true⟩).Send.sent
  else []

/-! ### The receiver -/

/-- What is done with the frames of parameters. An empty `idStartBLOB` or `idChunk` is ignored. -/
def receiveParameters (cv : Converters) (f : Flags) (frame : Frame) : Receive :=
  match frame.reqId with
  | .idStartBLOB => if frame.body.length = 0 then pure () else onStartBLOB frame.body
  | .idChunk => if frame.body.length = 0 then pure () else onChunk frame.body
  | _ => receive cv f frame

/-- With a `idStartBLOB` that is not empty there is no difference to the other receiver. -/
theorem receiveParameters_eq (cv : Converters) (f : Flags) {frame : Frame}
    (h : frame.reqId = .idStartBLOB → frame.body ≠ []) :
    receiveParameters cv f frame = receive cv f frame := by
  obtain ⟨reqId, body⟩ := frame
  cases reqId with
  | idStartBLOB =>
    have hne : ¬ body.length = 0 := fun h0 ↦ h rfl (List.length_eq_zero_iff.1 h0)
    exact if_neg hne
  | idChunk =>
    show (if body.length = 0 then pure () else onChunk body) = onChunk body
    split
    · next h0 =>
      rw [List.length_eq_zero_iff.1 h0]
      funext s
      show Outcome.ok () s = .ok () { s with m_Blob := s.m_Blob ++ [] }
      rw [List.append_nil]
    · rfl
  | _ => rfl

/-! ### Segments -/

/-- Whole fields in one row frame, or a field cut into a blob. -/
inductive Segment
  | pack (vs : List CDBVariant)
  | blob (v : CDBVariant) (head : List UInt8) (chunks : List (List UInt8)) (last : List UInt8)

namespace Segment

/-- The frames of a segment that is not the first one. -/
def frames : Segment → List Frame
  | pack vs => [⟨.idTransferring, vs.flatMap CDBVariant.bytes⟩]
  | blob v head chunks last => blobFrames (leBytes 4 v.bytes.length) head chunks last

/-- The fields of a segment. -/
def fields : Segment → List CDBVariant
  | pack vs => vs
  | blob v _ _ _ => [v]

/-- The fields are fields, and a field that is cut is large and cut without a loss. -/
inductive Sound : Segment → Prop
  | pack {vs : List CDBVariant} : (∀ v ∈ vs, v.Field) →
      (vs.flatMap CDBVariant.bytes).length < 2 ^ 32 → Sound (.pack vs)
  | blob {v : CDBVariant} {data head last : List UInt8} {chunks : List (List UInt8)} :
      v.Field → Large v data → v.bytes.length < 2 ^ 32 →
      head ++ chunks.flatten ++ last = v.bytes → Sound (.blob v head chunks last)

end Segment

/-- Blobs are not interrupted: `inside` a blob there are chunks up to an `idEndBLOB`, outside of
them row frames and `idStartBLOB`. -/
def bracketed : Bool → List RowReqId → Bool
  | inside, [] => !inside
  | false, .idStartBLOB :: ids => bracketed true ids
  | true, .idChunk :: ids => bracketed true ids
  | true, .idEndBLOB :: ids => bracketed false ids
  | false, .idBeginRows :: ids => bracketed false ids
  | false, .idTransferring :: ids => bracketed false ids
  | _, _ => false

/-- One `idBeginRows` with the fields `first`, and segments. -/
def Opened (sent : List Frame) (vs : List CDBVariant) : Prop :=
  ∃ (first : List CDBVariant) (segments : List Segment),
    sent = ⟨.idBeginRows, first.flatMap CDBVariant.bytes⟩ :: segments.flatMap Segment.frames ∧
    vs = first ++ segments.flatMap Segment.fields ∧
    (Segment.pack first).Sound ∧ ∀ seg ∈ segments, seg.Sound

section Segments

variable (cv : Converters) {f : Flags}

theorem Segment.Sound.delivers {seg : Segment} (h : seg.Sound) (hf : f.m_ToUtf8 = false) :
    Delivers cv f seg.frames seg.fields := by
  cases h with
  | pack hvs hlen => exact delivers_pack cv hf hvs hlen (.inr rfl)
  | blob hv hlarge hlt hcut => exact delivers_blob cv hf hv hlarge hlt (length_leBytes 4 _) hcut

theorem delivers_segments {segments : List Segment} (h : ∀ seg ∈ segments, seg.Sound)
    (hf : f.m_ToUtf8 = false) :
    Delivers cv f (segments.flatMap Segment.frames) (segments.flatMap Segment.fields) := by
  induction segments with
  | nil => exact .nil
  | cons seg segments ih =>
    rw [List.flatMap_cons, List.flatMap_cons]
    exact ((h seg List.mem_cons_self).delivers cv hf).append
      (ih fun t ht ↦ h t (List.mem_cons_of_mem seg ht))

/-- **The stream delivers its fields.** -/
theorem Opened.delivers {sent : List Frame} {vs : List CDBVariant} (h : Opened sent vs)
    (hf : f.m_ToUtf8 = false) : Delivers cv f sent vs := by
  obtain ⟨first, segments, rfl, rfl, hfirst, hsegments⟩ := h
  cases hfirst with
  | pack hvs hlen =>
    exact (delivers_pack cv hf hvs hlen (.inl rfl)).append (delivers_segments cv hsegments hf)

/-! ### What the segments show of the frames -/

theorem bracketed_chunks (chunks : List (List UInt8)) (ids : List RowReqId) :
    bracketed true (chunks.map (fun _ ↦ RowReqId.idChunk) ++ ids) = bracketed true ids := by
  induction chunks with
  | nil => rfl
  | cons chunk chunks ih => exact ih

/-- A segment is bracketed in itself, and contains no `idBeginRows`. -/
theorem Segment.reqIds (seg : Segment) (ids : List RowReqId) :
    bracketed false (seg.frames.map Frame.reqId ++ ids) = bracketed false ids ∧
      RowReqId.idBeginRows ∉ seg.frames.map Frame.reqId := by
  cases seg with
  | pack vs => exact ⟨rfl, by simp [frames]⟩
  | blob v head chunks last =>
    have hids : (blobFrames (leBytes 4 v.bytes.length) head chunks last).map Frame.reqId =
        .idStartBLOB :: (chunks.map (fun _ ↦ RowReqId.idChunk) ++ [.idEndBLOB]) := by
      simp [blobFrames, Function.comp_def]
    rw [frames, hids]
    refine ⟨?_, by simp⟩
    rw [List.cons_append, List.append_assoc]
    exact bracketed_chunks chunks _

theorem bracketed_segments (segments : List Segment) :
    bracketed false ((segments.flatMap Segment.frames).map Frame.reqId) = true ∧
      RowReqId.idBeginRows ∉ (segments.flatMap Segment.frames).map Frame.reqId := by
  induction segments with
  | nil => exact ⟨rfl, List.not_mem_nil⟩
  | cons seg segments ih =>
    rw [List.flatMap_cons, List.map_append, (seg.reqIds _).1, List.mem_append]
    exact ⟨ih.1, not_or.2 ⟨(seg.reqIds []).2, ih.2⟩⟩

/-- **One `idBeginRows`, first, and every blob in brackets.** -/
theorem Opened.reqIds {sent : List Frame} {vs : List CDBVariant} (h : Opened sent vs) :
    ∃ ids, sent.map Frame.reqId = .idBeginRows :: ids ∧ RowReqId.idBeginRows ∉ ids ∧
      bracketed false (sent.map Frame.reqId) = true := by
  obtain ⟨first, segments, rfl, -⟩ := h
  exact ⟨_, rfl, (bracketed_segments segments).2, (bracketed_segments segments).1⟩

/-- **A row frame consists of whole fields.** -/
theorem Opened.whole {sent : List Frame} {vs : List CDBVariant} (h : Opened sent vs)
    {frame : Frame} (hframe : frame ∈ sent)
    (hrow : frame.reqId = .idBeginRows ∨ frame.reqId = .idTransferring) :
    ∃ ws, ws <:+: vs ∧ frame.body = ws.flatMap CDBVariant.bytes := by
  obtain ⟨first, segments, rfl, rfl, -⟩ := h
  rcases List.mem_cons.1 hframe with rfl | hframe
  · exact ⟨first, (List.prefix_append _ _).isInfix, rfl⟩
  obtain ⟨seg, hseg, hmem⟩ := List.mem_flatMap.1 hframe
  obtain ⟨before, after, rfl⟩ := List.append_of_mem hseg
  cases seg with
  | pack ws =>
    rw [List.mem_singleton.1 hmem]
    refine ⟨ws, ⟨first ++ before.flatMap Segment.fields, after.flatMap Segment.fields, ?_⟩, rfl⟩
    simp [Segment.fields]
  | blob v head chunks last =>
    -- No frame of a blob is a row frame.
    have hids : ∀ g ∈ Segment.frames (.blob v head chunks last),
        g.reqId ≠ .idBeginRows ∧ g.reqId ≠ .idTransferring := by
      intro g hg
      rcases List.mem_cons.1 hg with rfl | hg
      · exact ⟨nofun, nofun⟩
      rcases List.mem_append.1 hg with hg | hg
      · obtain ⟨chunk, -, rfl⟩ := List.mem_map.1 hg
        exact ⟨nofun, nofun⟩
      · rw [List.mem_singleton.1 hg]
        exact ⟨nofun, nofun⟩
    exact (hrow.elim (hids frame hmem).1 (hids frame hmem).2).elim

/-- No `idStartBLOB` is empty: it begins with a length. -/
theorem Opened.start_ne_nil {sent : List Frame} {vs : List CDBVariant} (h : Opened sent vs)
    {frame : Frame} (hframe : frame ∈ sent) (hstart : frame.reqId = .idStartBLOB) :
    frame.body ≠ [] := by
  obtain ⟨first, segments, rfl, -⟩ := h
  rcases List.mem_cons.1 hframe with rfl | hframe
  · cases hstart
  obtain ⟨seg, -, hframe⟩ := List.mem_flatMap.1 hframe
  cases seg with
  | pack ws =>
    rw [List.mem_singleton.1 hframe] at hstart
    cases hstart
  | blob v head chunks last =>
    rcases List.mem_cons.1 hframe with rfl | hframe
    · nofun
    rcases List.mem_append.1 hframe with hframe | hframe
    · obtain ⟨chunk, -, rfl⟩ := List.mem_map.1 hframe
      cases hstart
    · rw [List.mem_singleton.1 hframe] at hstart
      cases hstart

/-- One more segment. -/
theorem Opened.append {sent : List Frame} {vs : List CDBVariant} (h : Opened sent vs)
    {seg : Segment} (hseg : seg.Sound) : Opened (sent ++ seg.frames) (vs ++ seg.fields) := by
  obtain ⟨first, segments, rfl, rfl, hfirst, hsegments⟩ := h
  refine ⟨first, segments ++ [seg], ?_, ?_, hfirst, ?_⟩
  · simp
  · simp
  · intro t ht
    rcases List.mem_append.1 ht with ht | ht
    · exact hsegments t ht
    · exact List.mem_singleton.1 ht ▸ hseg

end Segments

/-! ### The sender at any time -/

/-- After the parameters `vs`: the buffer consists of the bytes of the last ones, and the others
are in the frames sent, if there are any. -/
structure Streamed (p : ParameterSender) (vs : List CDBVariant) : Prop where
  fields : ∀ v ∈ vs, v.Field
  lt : p.sb.length < 2 ^ 32
  split : (p.firstRow = true ∧ p.sent = [] ∧ p.sb = vs.flatMap CDBVariant.bytes) ∨
    (p.firstRow = false ∧ ∃ done pending, vs = done ++ pending ∧ Opened p.sent done ∧
      p.sb = pending.flatMap CDBVariant.bytes)

theorem Streamed.init : Streamed ⟨[], [], true⟩ [] :=
  ⟨nofun, by decide, .inl ⟨rfl, rfl, rfl⟩⟩

/-- **Flushing**: all parameters are in the frames, and the flag is down. -/
theorem Streamed.send {p : ParameterSender} {vs : List CDBVariant} (h : Streamed p vs) :
    Opened p.Send.sent vs ∧ p.Send.sb = [] ∧ p.Send.firstRow = false := by
  obtain ⟨hfields, hlt, hsplit⟩ := h
  rcases hsplit with ⟨hfirst, hsent, hsb⟩ | ⟨hfirst, done, pending, rfl, hsent, hsb⟩
  · -- Nothing has been sent: the buffer goes into the `idBeginRows`, empty or not.
    have hopened : Opened [⟨.idBeginRows, p.sb⟩] vs := by
      rw [hsb] at hlt ⊢
      exact ⟨vs, [], rfl, (List.append_nil _).symm, .pack hfields hlt, nofun⟩
    unfold ParameterSender.Send
    split
    · rw [hsent]
      exact ⟨hopened, rfl, rfl⟩
    · next h0 =>
      have hnil : p.sb = [] := List.length_eq_zero_iff.1 (not_not.1 h0)
      rw [hsent]
      rw [hnil] at hopened
      exact ⟨hopened, hnil, rfl⟩
  · have hpending : (Segment.pack pending).Sound := by
      rw [hsb] at hlt
      exact .pack (fun v hv ↦ hfields v (List.mem_append_right _ hv)) hlt
    unfold ParameterSender.Send
    split
    · rw [hfirst, hsb]
      exact ⟨hsent.append hpending, rfl, rfl⟩
    · next h0 =>
      have hnil : p.sb = [] := List.length_eq_zero_iff.1 (not_not.1 h0)
      have hpnil : pending = [] := by
        have hle := length_le_length_flatMap pending
        rw [← hsb, hnil] at hle
        exact List.length_eq_zero_iff.1 (Nat.le_zero.1 hle)
      rw [hpnil, List.append_nil, if_neg (by rw [hfirst]; exact Bool.false_ne_true)]
      exact ⟨hsent, hnil, hfirst⟩

theorem Streamed.pack {p : ParameterSender} {vs : List CDBVariant} {vt : CDBVariant}
    (h : Streamed p vs) (hvt : vt.Field) (hlt : (p.sb ++ vt.bytes).length < 2 ^ 32) :
    Streamed (p.pack vt) (vs ++ [vt]) := by
  obtain ⟨hfields, -, hsplit⟩ := h
  refine ⟨?_, hlt, ?_⟩
  · intro v hv
    rcases List.mem_append.1 hv with hv | hv
    · exact hfields v hv
    · exact List.mem_singleton.1 hv ▸ hvt
  rcases hsplit with ⟨hfirst, hsent, hsb⟩ | ⟨hfirst, done, pending, rfl, hsent, hsb⟩
  · refine .inl ⟨hfirst, hsent, ?_⟩
    rw [ParameterSender.pack, hsb, List.flatMap_append, List.flatMap_singleton]
  · refine .inr ⟨hfirst, done, pending ++ [vt], List.append_assoc _ _ _, hsent, ?_⟩
    rw [ParameterSender.pack, hsb, List.flatMap_append, List.flatMap_singleton]

/-! ### Large parameters -/

/-- The loop cuts the buffer into a first piece, further pieces, and the rest, which is empty at an
exact multiple of the chunk size. -/
theorem sendBlobLoop_eq (start : Bool) {sb : List UInt8} (hsb : 0 < sb.length) :
    ∃ (first : List UInt8) (chunks : List (List UInt8)) (last : List UInt8),
      sendBlobLoop start sb = ⟨if start then .idStartBLOB else .idChunk, first⟩ ::
        (chunks.map (Frame.mk .idChunk) ++ [⟨.idEndBLOB, last⟩]) ∧
      first ++ (chunks.flatten ++ last) = sb ∧
      first.length = min DEFAULT_BIG_FIELD_CHUNK_SIZE sb.length := by
  induction hn : sb.length using Nat.strong_induction_on generalizing start sb with
  | _ n ih =>
    subst hn
    have hsend : (if DEFAULT_BIG_FIELD_CHUNK_SIZE ≤ sb.length then DEFAULT_BIG_FIELD_CHUNK_SIZE
        else sb.length) = min DEFAULT_BIG_FIELD_CHUNK_SIZE sb.length := rfl
    have hfirst : (sb.take (min DEFAULT_BIG_FIELD_CHUNK_SIZE sb.length)).length =
        min DEFAULT_BIG_FIELD_CHUNK_SIZE sb.length :=
      List.length_take_of_le (Nat.min_le_right _ _)
    rw [sendBlobLoop, if_pos hsb]
    simp only [hsend]
    rcases lt_or_ge (sb.drop (min DEFAULT_BIG_FIELD_CHUNK_SIZE sb.length)).length
      DEFAULT_BIG_FIELD_CHUNK_SIZE with hrest | hrest
    · rw [if_pos hrest]
      exact ⟨_, [], _, rfl, List.take_append_drop _ sb, hfirst⟩
    · have hpos : 0 < DEFAULT_BIG_FIELD_CHUNK_SIZE := by decide
      have hlt : (sb.drop (min DEFAULT_BIG_FIELD_CHUNK_SIZE sb.length)).length < sb.length := by
        rw [List.length_drop]
        omega
      obtain ⟨second, chunks, last, hsent, hsum, -⟩ :=
        ih _ hlt false (lt_of_lt_of_le hpos hrest) rfl
      rw [if_neg (Nat.not_lt.2 hrest), hsent]
      refine ⟨_, second :: chunks, last, rfl, ?_, hfirst⟩
      rw [List.flatten_cons, List.append_assoc, hsum, List.take_append_drop]

/-- **A large parameter is a segment**, its length ahead of its bytes. -/
theorem sendBlob_segment {vt : CDBVariant} (hvt : vt.Field) {data : List UInt8}
    (hlarge : Large vt data) (hlt : vt.bytes.length < 2 ^ 32) :
    ∃ seg : Segment, seg.Sound ∧ seg.fields = [vt] ∧
      SendBlob (blobBuffer [] vt) = seg.frames := by
  have hbuffer : blobBuffer [] vt = leBytes 4 vt.bytes.length ++ vt.bytes := by
    have hlen : ([] ++ leBytes 4 0 ++ vt.bytes).length - 4 = vt.bytes.length := by
      simp only [List.nil_append, List.length_append, length_leBytes]
      omega
    simp only [blobBuffer, hlen]
    rw [List.nil_append, List.drop_left' (length_leBytes 4 0)]
  have hlen : (blobBuffer [] vt).length = vt.bytes.length + 4 := by
    rw [hbuffer, List.length_append, length_leBytes, Nat.add_comm]
  have hpos : 0 < (blobBuffer [] vt).length := by omega
  obtain ⟨first, chunks, last, hsent, hsum, hfirst⟩ := sendBlobLoop_eq true hpos
  have hfour : 4 ≤ first.length := by
    have hbig : 4 ≤ DEFAULT_BIG_FIELD_CHUNK_SIZE := by decide
    omega
  -- The first piece begins with the length.
  have hhead : first = leBytes 4 vt.bytes.length ++ first.drop 4 := by
    have htake : first.take 4 = leBytes 4 vt.bytes.length := by
      rw [← List.take_append_of_le_length hfour, hsum, hbuffer,
        List.take_left' (length_leBytes 4 _)]
    rw [← htake, List.take_append_drop]
  refine ⟨.blob vt (first.drop 4) chunks last, .blob hvt hlarge hlt ?_, rfl, ?_⟩
  · have hcut : (first ++ (chunks.flatten ++ last)).drop 4 = vt.bytes := by
      rw [hsum, hbuffer, List.drop_left' (length_leBytes 4 _)]
    rw [List.append_assoc, ← List.drop_append_of_le_length hfour, hcut]
  · rw [SendBlob, if_pos hpos, hsent, Segment.frames, blobFrames, ← hhead]
    rfl

theorem Streamed.blob {p : ParameterSender} {vs : List CDBVariant} {vt : CDBVariant}
    {data : List UInt8} (h : Streamed p vs) (hvt : vt.Field) (hlarge : Large vt data)
    (hlt : vt.bytes.length < 2 ^ 32) : Streamed (p.blob vt) (vs ++ [vt]) := by
  obtain ⟨hsent, hsb, hfirst⟩ := h.send
  obtain ⟨seg, hseg, hfields, hframes⟩ := sendBlob_segment hvt hlarge hlt
  refine ⟨?_, by simp [ParameterSender.blob], .inr ⟨hfirst, vs ++ [vt], [],
    (List.append_nil _).symm, ?_, rfl⟩⟩
  · intro v hv
    rcases List.mem_append.1 hv with hv | hv
    · exact h.fields v hv
    · exact List.mem_singleton.1 hv ▸ hvt
  · show Opened (p.Send.sent ++ SendBlob (blobBuffer p.Send.sb vt)) _
    rw [hsb, hframes, ← hfields]
    exact hsent.append hseg

/-! ### The loop -/

/-- Bytes of a parameter that is not sent as a blob. -/
theorem length_small {vt : CDBVariant} (hvt : vt.Field)
    (hbstr : ∀ s, vt.value = .bstr s → SysStringLen s < DEFAULT_BIG_FIELD_CHUNK_SIZE)
    (harray : ∀ t n data, vt.value = .scalarArray t n data → n < 2 * DEFAULT_BIG_FIELD_CHUNK_SIZE) :
    vt.bytes.length < 2 ^ 16 := by
  have hbig : DEFAULT_BIG_FIELD_CHUNK_SIZE = 16384 := rfl
  cases h : vt.guid? with
  | some buffer =>
    obtain ⟨rfl, hlen⟩ := CDBVariant.guid?_eq_some h hvt.wellFormed
    rw [CDBVariant.bytes_of_guid h, List.length_append, length_leBytes, hlen]
    decide
  | none =>
    obtain ⟨hflat, hwf, -, -⟩ := hvt
    rw [CDBVariant.bytes_of_normal h]
    generalize vt.value = value at hflat hwf hbstr harray
    have hbytes : ∀ {t : ScalarVT} {n : ℕ} {data : List UInt8}, t.size = 1 →
        (VARIANT.scalarArray t n data).WellFormed → n < 2 * DEFAULT_BIG_FIELD_CHUNK_SIZE →
        (VARIANT.scalarArray t n data).encode.length < 2 ^ 16 := by
      intro t n data ht hwf hn
      cases hwf with
      | scalarArray _ hdata =>
        rw [encode_scalarArray t hdata, List.length_append, List.length_append, length_leBytes,
          length_leBytes, hdata, ht]
        omega
    cases hflat with
    | empty => decide
    | null => decide
    | @scalar t raw =>
      cases hwf with
      | scalar hraw =>
        have hsize := t.size_le
        rw [VARIANT.encode, VARIANT.pieces, List.flatten_cons, List.flatten_singleton,
          List.length_append, length_leBytes, hraw]
        omega
    | @bstr s =>
      have hlen := hbstr s rfl
      rw [VARIANT.encode_eq, List.length_append, length_leBytes]
      show 2 + (encodeBSTR s).length < 2 ^ 16
      cases s with
      | none =>
        rw [encodeBSTR_none, length_leBytes]
        decide
      | some us =>
        rw [encodeBSTR_some, List.length_append, length_leBytes, length_utf16Bytes]
        rw [SysStringLen] at hlen
        omega
    | ascii => exact hbytes rfl hwf (harray _ _ _ rfl)
    | binary => exact hbytes rfl hwf (harray _ _ _ rfl)

/-- A parameter goes into the buffer or into a blob. -/
theorem Streamed.put {p : ParameterSender} {vs : List CDBVariant} {vt : CDBVariant}
    (h : Streamed p vs) (hvt : vt.Field) (hlt : vt.bytes.length < 2 ^ 32)
    (hsmall : p.sb.length < DEFAULT_RECORD_BATCH_SIZE) : Streamed (p.put vt) (vs ++ [vt]) := by
  have hbatch : DEFAULT_RECORD_BATCH_SIZE = 16384 := rfl
  have hpack : vt.bytes.length < 2 ^ 16 → Streamed (p.pack vt) (vs ++ [vt]) := by
    intro hbytes
    refine h.pack hvt ?_
    rw [List.length_append]
    omega
  obtain ⟨value, vte⟩ := vt
  obtain ⟨hflat, hwf, -, -⟩ := id hvt
  have hlength := length_small hvt
  dsimp only at hflat hwf hlength
  rw [ParameterSender.put]
  cases hflat with
  | empty => exact hpack (hlength nofun nofun)
  | null => exact hpack (hlength nofun nofun)
  | scalar => exact hpack (hlength nofun nofun)
  | @bstr s =>
    dsimp only
    split
    · next hlen =>
      exact hpack (hlength (fun s' hs' ↦ by cases hs'; exact hlen) nofun)
    · next hlen =>
      cases s with
      | none => exact absurd (by decide) hlen
      | some us => exact h.blob hvt (Large.of_bstr rfl hlt) hlt
  | @ascii n data =>
    dsimp only
    rw [if_pos (.inr rfl)]
    split
    · next hlen =>
      exact hpack (hlength nofun (fun t' n' data' hs' ↦ by cases hs'; exact hlen))
    · next hlen => exact h.blob hvt (Large.of_array rfl rfl hwf rfl).1 hlt
  | @binary n data =>
    dsimp only
    rw [if_pos (.inl rfl)]
    split
    · next hlen =>
      exact hpack (hlength nofun (fun t' n' data' hs' ↦ by cases hs'; exact hlen))
    · next hlen =>
      -- A GUID is below the threshold.
      have hguid : (⟨.scalarArray .UI1 n data, vte⟩ : CDBVariant).guid? = none := by
        cases vte with
        | vteNormal => rfl
        | vteGuid =>
          obtain ⟨data', hdata'⟩ := hvt.guid rfl
          cases hdata'
          exact absurd (by decide) hlen
      exact h.blob hvt (Large.of_array rfl rfl hwf hguid).1 hlt

/-- **The step**: one more parameter, and the buffer stays below the size of a batch. -/
theorem Streamed.parameter {p : ParameterSender} {vs : List CDBVariant} {vt : CDBVariant}
    (h : Streamed p vs) (hvt : vt.Field) (hlt : vt.bytes.length < 2 ^ 32)
    (hsmall : p.sb.length < DEFAULT_RECORD_BATCH_SIZE) :
    Streamed (p.parameter vt) (vs ++ [vt]) ∧
      (p.parameter vt).sb.length < DEFAULT_RECORD_BATCH_SIZE := by
  have hput := h.put hvt hlt hsmall
  unfold ParameterSender.parameter
  split
  · obtain ⟨hsent, hsb, hfirst⟩ := hput.send
    refine ⟨⟨hput.fields, by rw [hsb]; decide, .inr ⟨hfirst, vs ++ [vt], [],
      (List.append_nil _).symm, hsent, hsb⟩⟩, by rw [hsb]; decide⟩
  · next hlow => exact ⟨hput, Nat.not_le.1 hlow⟩

theorem Streamed.foldl {p : ParameterSender} {vs ws : List CDBVariant} (h : Streamed p vs)
    (hws : ∀ w ∈ ws, w.Field) (hlt : ∀ w ∈ ws, w.bytes.length < 2 ^ 32)
    (hsmall : p.sb.length < DEFAULT_RECORD_BATCH_SIZE) :
    Streamed (ws.foldl ParameterSender.parameter p) (vs ++ ws) := by
  induction ws generalizing p vs with
  | nil => rwa [List.append_nil]
  | cons w ws ih =>
    obtain ⟨hstep, hsmall'⟩ :=
      h.parameter (hws w List.mem_cons_self) (hlt w List.mem_cons_self) hsmall
    rw [List.append_cons]
    exact ih hstep (fun v hv ↦ hws v (List.mem_cons_of_mem w hv))
      (fun v hv ↦ hlt v (List.mem_cons_of_mem w hv)) hsmall'

/-- What is sent for parameters, if there are any. -/
theorem sendParametersData_opened {vParam : List CDBVariant} (hne : vParam ≠ [])
    (hfield : ∀ v ∈ vParam, v.Field) (hlt : ∀ v ∈ vParam, v.bytes.length < 2 ^ 32) :
    Opened (SendParametersData vParam) vParam := by
  have hlen : vParam.length ≠ 0 := fun h0 ↦ hne (List.length_eq_zero_iff.1 h0)
  rw [SendParametersData, if_pos hlen]
  exact (Streamed.init.foldl hfield hlt (by decide)).send.1

/-- What is promised of the frames for an array of parameters: a receiver that keeps texts as they
are rebuilds exactly the array; if there is a parameter, one `idBeginRows` is sent and it comes
first, and nothing is sent otherwise; blobs are bracketed; a row frame consists of whole fields. -/
structure StreamedExactly (cv : Converters) (vParam : List CDBVariant) : Prop where
  rebuilt : ∀ s : RowBuffer, ∃ blob,
    handleAll (receiveParameters cv noFlags) (SendParametersData vParam) s =
      .ok () ⟨s.m_vData ++ vParam, blob⟩
  begun : vParam ≠ [] → ∃ ids, (SendParametersData vParam).map Frame.reqId = .idBeginRows :: ids ∧
    RowReqId.idBeginRows ∉ ids
  silent : vParam = [] → SendParametersData vParam = []
  brackets : bracketed false ((SendParametersData vParam).map Frame.reqId) = true
  whole : ∀ frame ∈ SendParametersData vParam,
    frame.reqId = .idBeginRows ∨ frame.reqId = .idTransferring →
      ∃ ws, ws <:+: vParam ∧ frame.body = ws.flatMap CDBVariant.bytes

end SocketPro.Database
