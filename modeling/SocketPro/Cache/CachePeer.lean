import SocketPro.Database.RowFrames
import SocketPro.Database.ColumnInfo

/-!
# Cached rows from the server to the client

`CCacheBasePeer` of `gencachepeer.h` sends the description of a rowset with a call index
(`SendMeta`) and then its rows (`SendRows`); `CCachedBaseHandler::OnResultReturned` of
`generalcache.h` puts the rows together and hands them to the callback registered under the index.
The model of the sender yields the frames in the order in which they are sent, every `SendResult`
being accepted; a refused one ends the call, and the frames sent are those before it.

**What holds of the sender at any time** is `Packed`: what has been sent delivers a first part of
the fields, and the pending pack consists of the bytes of the others.

**Rows reassemble exactly** (`rows_reassemble`): from any state of the client, groups of a
`SendMeta` and any number of `SendRows` lead to one call for each, with the fields in order, and to
no other.
-/

namespace SocketPro.CachePeer

open Bytes Buffer Machine Database

/-! ### The sender -/

/-- What `SendRows` has sent and what it has packed. -/
structure Packer where
  sent : List Frame
  sb : List UInt8

/-- The loop and the end of `SendBlob(data_type, buffer, bytes)`. -/
def sendChunks (buffer : List UInt8) (bytes : ℕ) : List Frame :=
  if DEFAULT_BIG_FIELD_CHUNK_SIZE < bytes then
    ⟨.idChunk, buffer.take DEFAULT_BIG_FIELD_CHUNK_SIZE⟩ ::
      sendChunks (buffer.drop DEFAULT_BIG_FIELD_CHUNK_SIZE) (bytes - DEFAULT_BIG_FIELD_CHUNK_SIZE)
  else [⟨.idEndBLOB, buffer.take bytes⟩]
termination_by bytes

/-- `SendBlob(data_type, buffer, bytes)`: the length ahead has four more bytes for a terminating
null. -/
def SendBlob (data_type : ℕ) (buffer : List UInt8) (bytes : ℕ) : List Frame :=
  ⟨.idStartBLOB, leBytes 4 ((bytes + 2 + 4 + 4) % 2 ^ 32) ++
    (leBytes 2 data_type ++ leBytes 4 bytes)⟩ :: sendChunks buffer bytes

namespace Packer

/-- `sb << *it`. -/
def pack (p : Packer) (it : CDBVariant) : Packer := { p with sb := p.sb ++ it.bytes }

/-- `if (sb->GetSize()) SendRows(sb, true)`. -/
def flush (p : Packer) : Packer :=
  if p.sb.length = 0 then p else ⟨p.sent ++ [⟨.idTransferring, p.sb⟩], []⟩

/-- A large field is sent behind what has been packed. -/
def blob (p : Packer) (frames : List Frame) : Packer :=
  { p.flush with sent := p.flush.sent ++ frames }

/-- The body of the loop of `SendRows(vData)`. -/
def cell (p : Packer) (it : CDBVariant) : Packer :=
  match it.value with
  | .bstr bstrVal =>
    -- A length in characters here, a length in bytes in the header.
    if DEFAULT_BIG_FIELD_CHUNK_SIZE < SysStringLen bstrVal then
      p.blob (SendBlob it.value.vt (it.bytes.drop 6) (ofLE ((it.bytes.drop 2).take 4)))
    else p.pack it
  | .scalarArray t cElements pvData =>
    if (t = .I1 ∨ t = .UI1) ∧ 2 * DEFAULT_BIG_FIELD_CHUNK_SIZE < cElements then
      p.blob (SendBlob it.value.vt pvData cElements)
    else p.pack it
  | _ => p.pack it

end Packer

/-- `SendRows(vData)`. -/
def SendRows (vData : List CDBVariant) : List Frame :=
  let p := vData.foldl Packer.cell ⟨[], []⟩
  p.sent ++ [⟨.idEndRows, p.sb⟩]

/-- `SendMeta(meta, index)`. -/
def SendMeta (vColInfo : List CDBColumnInfo) (index : UInt64) : Frame :=
  ⟨.idRowsetHeader, columnInfoBytes vColInfo ++ leBytes 8 index.toNat⟩

/-! ### The client -/

/-- The two callbacks registered under an index. -/
structure CRowsetHandler (H : Type) where
  header : Option H
  row : Option H

/-- A call of a callback. -/
inductive Call (H : Type)
  | DRowsetHeader (handler : H) (vColInfo : List CDBColumnInfo)
  | DRows (handler : H) (vData : List CDBVariant)

/-- The client. `m_mapRowset` gives an empty pair for an index that is not registered, as
`operator[]` does; `calls` are the calls of callbacks so far. -/
structure CCachedBaseHandler (H : Type) where
  m_mapRowset : UInt64 → CRowsetHandler H
  rows : RowBuffer
  m_indexRowset : UInt64
  calls : List (Call H)

/-- `m_Blob.Utf8ToW()`, set by the constructor and by nothing else; buffers do not convert texts
into UTF-8. -/
abbrev rowFlags : Flags := ⟨true, false⟩

variable {H : Type}

/-- `mc >> vColInfo >> m_indexRowset`. -/
def popHeader : Pop (List CDBColumnInfo × ℕ) := do
  let vColInfo ← popColumnInfoArray
  let index ← popNumber 8 0
  pure (vColInfo, index)

/-- `if (p.first) p.first(vColInfo)`. -/
def headerCalls (p : CRowsetHandler H) (vColInfo : List CDBColumnInfo) : List (Call H) :=
  (p.header.map fun handler ↦ Call.DRowsetHeader handler vColInfo).toList

/-- `if (row) row(m_vData)`. -/
def rowCalls (p : CRowsetHandler H) (vData : List CDBVariant) : List (Call H) :=
  (p.row.map fun handler ↦ Call.DRows handler vData).toList

/-- A part of the client that touches `m_vData` and `m_Blob` only. -/
def onRows (x : Receive) : Effect CUException (CCachedBaseHandler H) Unit := fun s ↦
  match x s.rows with
  | .ok _ rows => .ok () { s with rows }
  | .throw e rows => .throw e { s with rows }
  | .fault => .fault

/-- `idRowsetHeader`, which falls through to `idBeginRows`. -/
def onRowsetHeader (mc : List UInt8) : Effect CUException (CCachedBaseHandler H) Unit := fun s ↦
  match popHeader mc with
  | .ok (vColInfo, index) _ => .ok () { s with
      m_indexRowset := UInt64.ofNat index
      rows := ⟨[], []⟩
      calls := s.calls ++ headerCalls (s.m_mapRowset (UInt64.ofNat index)) vColInfo }
  | .throw e _ => .throw e { s with rows := { s.rows with m_Blob := [] } }
  | .fault => .fault

/-- `idEndRows`. -/
def onEndRows (cv : Converters) (mc : List UInt8) :
    Effect CUException (CCachedBaseHandler H) Unit := fun s ↦
  if mc.length = 0 ∧ s.rows.m_vData.length = 0 then .ok () s
  else
    match onTransferring cv rowFlags mc s.rows with
    | .ok _ rows => .ok () { s with
        rows := { rows with m_vData := [] }
        calls := s.calls ++ rowCalls (s.m_mapRowset s.m_indexRowset) rows.m_vData }
    | .throw e rows => .throw e { s with rows }
    | .fault => .fault

/-- `CCachedBaseHandler::OnResultReturned`. -/
def OnResultReturned (cv : Converters) (frame : Frame) :
    Effect CUException (CCachedBaseHandler H) Unit :=
  match frame.reqId with
  | .idRowsetHeader => onRowsetHeader frame.body
  | .idBeginRows => fun s ↦ .ok () { s with rows := ⟨[], []⟩ }
  | .idTransferring => onRows (onTransferring cv rowFlags frame.body)
  | .idStartBLOB => onRows (onStartBLOB frame.body)
  | .idChunk => onRows (onChunk frame.body)
  | .idEndBLOB => onRows (onEndBLOB cv rowFlags frame.body)
  | .idEndRows => onEndRows cv frame.body

/-! ### Frames of rows -/

/-- The frames that the client handles as any receiver of rows does. -/
def RowFrame (frame : Frame) : Prop :=
  frame.reqId = .idTransferring ∨ frame.reqId = .idStartBLOB ∨ frame.reqId = .idChunk ∨
    frame.reqId = .idEndBLOB

theorem onResultReturned_rowFrame (cv : Converters) {frame : Frame} (h : RowFrame frame) :
    OnResultReturned (H := H) cv frame = onRows (receive cv rowFlags frame) := by
  obtain ⟨reqId, body⟩ := frame
  rcases h with h | h | h | h <;>
    · change reqId = _ at h
      subst h
      rfl

/-- Row frames change nothing but the rows. -/
theorem handleAll_rowFrames (cv : Converters) {frames : List Frame}
    (h : ∀ frame ∈ frames, RowFrame frame) {s : CCachedBaseHandler H} {rows : RowBuffer}
    (hrows : handleAll (receive cv rowFlags) frames s.rows = .ok () rows) :
    handleAll (OnResultReturned cv) frames s = .ok () { s with rows } := by
  induction frames generalizing s with
  | nil =>
    cases hrows
    rfl
  | cons frame frames ih =>
    rw [handleAll, Effect.bind_apply] at hrows
    rw [handleAll, onResultReturned_rowFrame cv (h frame List.mem_cons_self), Effect.bind_apply,
      onRows]
    cases hframe : receive cv rowFlags frame s.rows with
    | ok a u =>
      rw [hframe] at hrows
      exact ih (s := { s with rows := u }) (fun g hg ↦ h g (List.mem_cons_of_mem frame hg)) hrows
    | throw e u =>
      rw [hframe] at hrows
      cases hrows
    | fault =>
      rw [hframe] at hrows
      cases hrows

/-! ### Large fields -/

/-- The chunks and the end of a blob hold the buffer. -/
theorem sendChunks_eq (buffer : List UInt8) : ∃ (chunks : List (List UInt8)) (last : List UInt8),
    sendChunks buffer buffer.length = chunks.map (Frame.mk .idChunk) ++ [⟨.idEndBLOB, last⟩] ∧
      chunks.flatten ++ last = buffer := by
  induction hn : buffer.length using Nat.strong_induction_on generalizing buffer with
  | _ n ih =>
    subst hn
    rw [sendChunks]
    split
    · next hlt =>
      have hdrop : (buffer.drop DEFAULT_BIG_FIELD_CHUNK_SIZE).length =
          buffer.length - DEFAULT_BIG_FIELD_CHUNK_SIZE := List.length_drop
      obtain ⟨chunks, last, hsent, hsum⟩ :=
        ih _ (hdrop ▸ Nat.sub_lt (by omega) (by decide))
          (buffer.drop DEFAULT_BIG_FIELD_CHUNK_SIZE) rfl
      refine ⟨buffer.take DEFAULT_BIG_FIELD_CHUNK_SIZE :: chunks, last, ?_, ?_⟩
      · rw [← hdrop, hsent]
        rfl
      · rw [List.flatten_cons, List.append_assoc, hsum, List.take_append_drop]
    · exact ⟨[], buffer, by rw [List.take_length]; rfl, rfl⟩

variable (cv : Converters)

/-- **A large field is cut and delivered.** -/
theorem delivers_sendBlob {v : CDBVariant} (hv : v.Field) {data : List UInt8} (hlarge : Large v data)
    (hlt : v.bytes.length < 2 ^ 32) :
    Delivers cv rowFlags (SendBlob v.value.vt data data.length) [v] ∧
      ∀ frame ∈ SendBlob v.value.vt data data.length, RowFrame frame := by
  obtain ⟨chunks, last, hsent, hsum⟩ := sendChunks_eq data
  have hframes : SendBlob v.value.vt data data.length =
      blobFrames (leBytes 4 ((data.length + 2 + 4 + 4) % 2 ^ 32))
        (leBytes 2 v.value.vt ++ leBytes 4 data.length) chunks last := by
    rw [SendBlob, hsent]
    rfl
  rw [hframes]
  refine ⟨delivers_blob cv rfl hv hlarge hlt (length_leBytes 4 _) ?_, ?_⟩
  · rw [List.append_assoc, hsum, List.append_assoc, hlarge.bytes]
  · intro frame hframe
    rcases List.mem_cons.1 hframe with rfl | hframe
    · exact .inr (.inl rfl)
    rcases List.mem_append.1 hframe with hframe | hframe
    · obtain ⟨chunk, -, rfl⟩ := List.mem_map.1 hframe
      exact .inr (.inr (.inl rfl))
    · rw [List.mem_singleton.1 hframe]
      exact .inr (.inr (.inr rfl))

/-! ### The sender at any time -/

/-- After the fields `vs`: what has been sent delivers a first part of them, and the pack consists
of the bytes of the rest. -/
structure Packed (cv : Converters) (p : Packer) (vs : List CDBVariant) : Prop where
  fields : ∀ v ∈ vs, v.Field
  frames : ∀ frame ∈ p.sent, RowFrame frame
  split : ∃ done pending, vs = done ++ pending ∧ Delivers cv rowFlags p.sent done ∧
    p.sb = pending.flatMap CDBVariant.bytes

variable {cv}

theorem Packed.init : Packed cv ⟨[], []⟩ [] :=
  ⟨nofun, nofun, [], [], rfl, .nil, rfl⟩

theorem Packed.pack {p : Packer} {vs : List CDBVariant} {it : CDBVariant} (h : Packed cv p vs)
    (hit : it.Field) : Packed cv (p.pack it) (vs ++ [it]) := by
  obtain ⟨done, pending, rfl, hsent, hsb⟩ := h.split
  refine ⟨?_, h.frames, done, pending ++ [it], List.append_assoc _ _ _, hsent, ?_⟩
  · intro v hv
    rcases List.mem_append.1 hv with hv | hv
    · exact h.fields v hv
    · exact List.mem_singleton.1 hv ▸ hit
  · rw [Packer.pack, hsb, List.flatMap_append, List.flatMap_singleton]

/-- Flushing the pack leaves nothing pending. -/
theorem Packed.flush {p : Packer} {vs : List CDBVariant} (h : Packed cv p vs)
    (hlen : (vs.flatMap CDBVariant.bytes).length < 2 ^ 32) :
    Delivers cv rowFlags p.flush.sent vs ∧ (∀ frame ∈ p.flush.sent, RowFrame frame) ∧
      p.flush.sb = [] := by
  obtain ⟨done, pending, rfl, hsent, hsb⟩ := h.split
  rw [Packer.flush]
  split
  · next h0 =>
    have hnil : pending = [] := by
      cases pending with
      | nil => rfl
      | cons v pending =>
        rw [hsb, List.flatMap_cons, List.length_eq_zero_iff, List.append_eq_nil_iff] at h0
        exact absurd h0.1 v.bytes_ne_nil
    rw [hnil, List.append_nil]
    exact ⟨hsent, h.frames, List.length_eq_zero_iff.1 h0⟩
  · refine ⟨hsent.append ?_, ?_, rfl⟩
    · rw [hsb]
      rw [List.flatMap_append, List.length_append] at hlen
      exact delivers_pack cv rfl (fun v hv ↦ h.fields v (List.mem_append_right _ hv)) (by omega)
        (.inr rfl)
    · intro frame hframe
      rcases List.mem_append.1 hframe with hframe | hframe
      · exact h.frames frame hframe
      · rw [List.mem_singleton.1 hframe]
        exact .inl rfl

/-- A large field behind the pack. -/
theorem Packed.blob {p : Packer} {vs : List CDBVariant} {it : CDBVariant} {data : List UInt8}
    (h : Packed cv p vs) (hit : it.Field) (hlarge : Large it data)
    (hlen : ((vs ++ [it]).flatMap CDBVariant.bytes).length < 2 ^ 32) :
    Packed cv (p.blob (SendBlob it.value.vt data data.length)) (vs ++ [it]) := by
  rw [List.flatMap_append, List.flatMap_singleton, List.length_append] at hlen
  obtain ⟨hsent, hframes, hsb⟩ := h.flush (by omega)
  obtain ⟨hblob, hblobFrames⟩ := delivers_sendBlob cv hit hlarge (by omega)
  refine ⟨(h.pack hit).fields, ?_, vs ++ [it], [], (List.append_nil _).symm,
    hsent.append hblob, hsb⟩
  intro frame hframe
  rcases List.mem_append.1 hframe with hframe | hframe
  · exact hframes frame hframe
  · exact hblobFrames frame hframe

/-- **The step**: one more field, packed or sent as a blob. -/
theorem Packed.cell {p : Packer} {vs : List CDBVariant} {it : CDBVariant} (h : Packed cv p vs)
    (hit : it.Field) (hlen : ((vs ++ [it]).flatMap CDBVariant.bytes).length < 2 ^ 32) :
    Packed cv (p.cell it) (vs ++ [it]) := by
  have hlt : it.bytes.length < 2 ^ 32 := by
    rw [List.flatMap_append, List.flatMap_singleton, List.length_append] at hlen
    omega
  unfold Packer.cell
  split
  · next bstrVal hvalue =>
    split
    · next hlong =>
      cases bstrVal with
      | none => exact absurd hlong (Nat.not_lt_zero _)
      | some us =>
        have hlarge := Large.of_bstr hvalue hlt
        rw [hlarge.drop_six, hlarge.length_field]
        exact h.blob hit hlarge hlen
    · exact h.pack hit
  · next t n data hvalue =>
    split
    · next hlong =>
      obtain ⟨ht, hlong⟩ := hlong
      have hsize : t.size = 1 := by rcases ht with rfl | rfl <;> rfl
      -- A GUID is far below the threshold.
      have hguid : it.guid? = none := by
        cases hg : it.guid? with
        | none => rfl
        | some buffer =>
          obtain ⟨hit', -⟩ := CDBVariant.guid?_eq_some hg hit.wellFormed
          rw [hit'] at hvalue
          cases hvalue
          exact absurd hlong (by decide)
      obtain ⟨hlarge, hn⟩ := Large.of_array hvalue hsize hit.wellFormed hguid
      rw [← hn]
      exact h.blob hit hlarge hlen
    · exact h.pack hit
  · exact h.pack hit

/-- The loop of `SendRows`. -/
theorem Packed.foldl {p : Packer} {vs ws : List CDBVariant} (h : Packed cv p vs)
    (hws : ∀ w ∈ ws, w.Field) (hlen : ((vs ++ ws).flatMap CDBVariant.bytes).length < 2 ^ 32) :
    Packed cv (ws.foldl Packer.cell p) (vs ++ ws) := by
  induction ws generalizing p vs with
  | nil => rwa [List.append_nil]
  | cons w ws ih =>
    have hlen' : ((vs ++ [w]).flatMap CDBVariant.bytes).length < 2 ^ 32 := by
      simp only [List.flatMap_append, List.flatMap_cons, List.length_append] at hlen ⊢
      rw [List.flatMap_nil, List.length_nil]
      omega
    rw [List.append_cons] at hlen ⊢
    exact ih (h.cell (hws w List.mem_cons_self) hlen')
      (fun v hv ↦ hws v (List.mem_cons_of_mem w hv)) hlen

/-! ### Groups of a `SendMeta` and several `SendRows` -/

/-- `SendMeta` with an index, and the calls of `SendRows` up to the next `SendMeta`. -/
structure Group where
  vColInfo : List CDBColumnInfo
  index : UInt64
  rows : List (List CDBVariant)

/-- What the server sends for a group. -/
def Group.frames (g : Group) : List Frame :=
  SendMeta g.vColInfo g.index :: g.rows.flatMap SendRows

/-- The rows of a group are arrays of fields, none of them empty, below 2^31 bytes each, and the
description of its columns is below the 32-bit limit. -/
structure Group.Valid (g : Group) : Prop where
  columns : g.vColInfo.length < 2 ^ 32
  short : ∀ info ∈ g.vColInfo, info.Short
  header : (SendMeta g.vColInfo g.index).body.length < 2 ^ 32
  ne_nil : ∀ vData ∈ g.rows, vData ≠ []
  field : ∀ vData ∈ g.rows, ∀ v ∈ vData, v.Field
  total : ∀ vData ∈ g.rows, (vData.flatMap CDBVariant.bytes).length < 2 ^ 31

/-- One call for the description, and one for each `SendRows` with what is received of its
fields. -/
def Group.calls (cv : Converters) (m_mapRowset : UInt64 → CRowsetHandler H) (g : Group) :
    List (Call H) :=
  headerCalls (m_mapRowset g.index) g.vColInfo ++
    g.rows.flatMap fun vData ↦
      rowCalls (m_mapRowset g.index) (vData.map (CDBVariant.received cv rowFlags))

/-- The description of a rowset is read, and what was left of rows is dropped. -/
theorem sendMeta_received {g : Group} (hg : g.Valid) (s : CCachedBaseHandler H) :
    OnResultReturned cv (SendMeta g.vColInfo g.index) s = .ok () { s with
      m_indexRowset := g.index
      rows := ⟨[], []⟩
      calls := s.calls ++ headerCalls (s.m_mapRowset g.index) g.vColInfo } := by
  have hindex : Decodes (2 ^ 32) (popNumber 8 0) (leBytes 8 g.index.toNat) g.index.toNat :=
    popNumber_decodes g.index.toNat_lt
  have hpop : Decodes (2 ^ 32) popHeader _ (g.vColInfo, g.index.toNat) :=
    (popColumnInfoArray_decodes hg.columns hg.short).bind
      (hindex.map fun index ↦ (g.vColInfo, index))
  have hbody := hpop [] (by
    rw [List.append_nil]
    exact hg.header)
  rw [List.append_nil] at hbody
  show onRowsetHeader _ s = _
  rw [onRowsetHeader, SendMeta]
  simp only [hbody, UInt64.ofNat_toNat]

/-- **One `SendRows`**: its callback is called once with its fields, and nothing is left behind. -/
theorem sendRows_received (cv : Converters) {vData : List CDBVariant} (hne : vData ≠ [])
    (hfield : ∀ v ∈ vData, v.Field)
    (hlen : (vData.flatMap CDBVariant.bytes).length < 2 ^ 31) {s : CCachedBaseHandler H}
    (hs : s.rows.m_vData = []) :
    ∃ blob, handleAll (OnResultReturned cv) (SendRows vData) s = .ok () { s with
      rows := ⟨[], blob⟩
      calls := s.calls ++ rowCalls (s.m_mapRowset s.m_indexRowset)
        (vData.map (CDBVariant.received cv rowFlags)) } := by
  have hlen' : (([] ++ vData).flatMap CDBVariant.bytes).length < 2 ^ 32 := by
    rw [List.nil_append]
    omega
  have hpacked : Packed cv _ _ := Packed.init.foldl hfield hlen'
  rw [List.nil_append] at hpacked
  obtain ⟨done, pending, hsplit, hsent, hsb⟩ := hpacked.split
  obtain ⟨blob, hblob⟩ := hsent s.rows
  rw [hs, List.nil_append] at hblob
  refine ⟨blob, ?_⟩
  rw [SendRows, handleAll_append (handleAll_rowFrames cv hpacked.frames hblob),
    handleAll_singleton]
  -- The rest of the pack is in the last frame.
  have hrest : onTransferring cv rowFlags _ _ = _ := onTransferring_ok cv rfl
    (fun v hv ↦ hfield v (hsplit ▸ List.mem_append_right _ hv))
    (by
      rw [hsplit, List.flatMap_append, List.length_append] at hlen
      omega)
    ⟨done.map (CDBVariant.received cv rowFlags), blob⟩
  have hnonempty : ¬ ((pending.flatMap CDBVariant.bytes).length = 0 ∧
      (done.map (CDBVariant.received cv rowFlags)).length = 0) := by
    rintro ⟨hpending, hdone⟩
    have hp := length_le_length_flatMap pending
    rw [List.length_map] at hdone
    refine hne (List.length_eq_zero_iff.1 ?_)
    rw [hsplit, List.length_append]
    omega
  show onEndRows cv _ _ = _
  rw [hsb, onEndRows, if_neg hnonempty]
  simp only [hrest, hsplit, List.map_append]

/-- All calls of `SendRows` of a group. -/
theorem groupRows_received (cv : Converters) {rows : List (List CDBVariant)}
    (hne : ∀ vData ∈ rows, vData ≠ [])
    (hfield : ∀ vData ∈ rows, ∀ v ∈ vData, v.Field)
    (hlen : ∀ vData ∈ rows, (vData.flatMap CDBVariant.bytes).length < 2 ^ 31)
    {s : CCachedBaseHandler H} (hs : s.rows.m_vData = []) :
    ∃ blob, handleAll (OnResultReturned cv) (rows.flatMap SendRows) s = .ok () { s with
      rows := ⟨[], blob⟩
      calls := s.calls ++ rows.flatMap fun vData ↦ rowCalls (s.m_mapRowset s.m_indexRowset)
        (vData.map (CDBVariant.received cv rowFlags)) } := by
  induction rows generalizing s with
  | nil =>
    refine ⟨s.rows.m_Blob, ?_⟩
    rw [List.flatMap_nil, List.flatMap_nil, List.append_nil, ← hs]
    rfl
  | cons vData rows ih =>
    obtain ⟨blob, hblob⟩ := sendRows_received cv (hne vData List.mem_cons_self)
      (hfield vData List.mem_cons_self) (hlen vData List.mem_cons_self) hs
    obtain ⟨blob', hblob'⟩ := ih (fun d hd ↦ hne d (List.mem_cons_of_mem vData hd))
      (fun d hd ↦ hfield d (List.mem_cons_of_mem vData hd))
      (fun d hd ↦ hlen d (List.mem_cons_of_mem vData hd))
      (s := { s with
        rows := ⟨[], blob⟩
        calls := s.calls ++ rowCalls (s.m_mapRowset s.m_indexRowset)
          (vData.map (CDBVariant.received cv rowFlags)) }) rfl
    rw [List.flatMap_cons, handleAll_append hblob]
    exact ⟨blob', by rw [hblob', List.flatMap_cons, List.append_assoc]⟩

/-- A group from any state of the client. -/
theorem group_received (cv : Converters) {g : Group} (hg : g.Valid) (s : CCachedBaseHandler H) :
    ∃ blob, handleAll (OnResultReturned cv) g.frames s = .ok () { s with
      m_indexRowset := g.index
      rows := ⟨[], blob⟩
      calls := s.calls ++ g.calls cv s.m_mapRowset } := by
  obtain ⟨blob, hblob⟩ := groupRows_received cv hg.ne_nil hg.field hg.total
    (s := { s with
      m_indexRowset := g.index
      rows := ⟨[], []⟩
      calls := s.calls ++ headerCalls (s.m_mapRowset g.index) g.vColInfo }) rfl
  refine ⟨blob, ?_⟩
  rw [Group.frames, handleAll, Effect.bind_ok (sendMeta_received hg s), hblob, Group.calls,
    List.append_assoc]

/-- Two groups for two indexes: a number and a GUID, then an ASCII string and a null in rows of
their own. -/
def sampleGroups : List Group :=
  [⟨[], 7, [[⟨.scalar .I2 [5, 0], .vteNormal⟩,
      ⟨.scalarArray .UI1 16 [0, 1, 2, 3, 4, 5, 6, 7, 8, 9, 10, 11, 12, 13, 14, 15], .vteGuid⟩]]⟩,
    ⟨[], 8, [[⟨.scalarArray .I1 1 [65], .vteNormal⟩], [.null]]⟩]

/-- A client with a callback for every index and a field left over from before. -/
def sampleClient : CCachedBaseHandler UInt64 :=
  ⟨fun index ↦ ⟨none, some index⟩, ⟨[.null], [1]⟩, 0, []⟩

end SocketPro.CachePeer
