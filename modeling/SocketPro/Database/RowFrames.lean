import SocketPro.Database.DBVariant

/-!
# Rows in frames

Rows travel as a sequence of requests or results, here called frames. Small fields are packed into
row frames (`idBeginRows`, `idTransferring`, `idEndRows`); a large one is cut into `idStartBLOB`,
any number of `idChunk` and `idEndBLOB`.

The receiving side is the same code in `CAsyncDBHandler::OnResultReturned` and in
`CCachedBaseHandler::OnResultReturned`: a row frame is popped field by field behind `m_vData`, the
parts of a large field are collected in `m_Blob` and popped as one field at `idEndBLOB`. The buffers
are lists here; the memory of `m_Blob` is reserved from the length that `idStartBLOB` carries.

**What a sequence of frames delivers.** `Delivers cv f frames vs`: whatever has been received
before, receiving the frames appends exactly the fields `vs`. Row frames that hold whole fields
deliver them (`delivers_pack`), a field cut at any places delivers itself (`delivers_blob`), and
deliveries add up (`Delivers.append`).
-/

namespace SocketPro.Database

open Bytes Buffer Machine

/-- The requests that carry rows. -/
inductive RowReqId
  | idRowsetHeader
  | idBeginRows
  | idTransferring
  | idStartBLOB
  | idChunk
  | idEndBLOB
  | idEndRows
deriving DecidableEq, Repr

/-- One request or result with its bytes. -/
structure Frame where
  reqId : RowReqId
  body : List UInt8
deriving DecidableEq, Repr

abbrev DEFAULT_BIG_FIELD_CHUNK_SIZE : ℕ := 16 * 1024

/-- A length from here on stands for one that is not known in advance. -/
abbrev BLOB_LENGTH_NOT_AVAILABLE : ℕ := 0xffffffe0

/-- `SysStringLen`. -/
def SysStringLen : Option (List UInt16) → ℕ
  | none => 0
  | some us => us.length

/-- Where a receiver collects rows. -/
structure RowBuffer where
  m_vData : List CDBVariant
  m_Blob : List UInt8

/-- A part of a receiver. -/
abbrev Receive := Effect CUException RowBuffer Unit

section Receiver

variable (cv : Converters) (f : Flags)

/-- `while (mc.GetSize()) { m_vData.push_back(CDBVariant()); mc >> m_vData.back(); }`: every turn
takes at least a tag, so that as many turns as there are bytes are enough. -/
def popRows : ℕ → List UInt8 → Receive
  | 0, mc => fun s ↦ if mc.length = 0 then .ok () s else .fault
  | fuel + 1, mc => fun s ↦
    if mc.length = 0 then .ok () s
    else
      match CDBVariant.pop cv f mc with
      | .ok vt mc' => popRows fuel mc' { s with m_vData := s.m_vData ++ [vt] }
      -- The element that was to be read into stays behind.
      | .throw e _ => .throw e { s with m_vData := s.m_vData ++ [.null] }
      | .fault => .fault

/-- `idTransferring`. -/
def onTransferring (mc : List UInt8) : Receive := popRows cv f mc.length mc

/-- `idStartBLOB`: the length expected, then the beginning of the field. -/
def onStartBLOB (mc : List UInt8) : Receive := fun s ↦
  if mc.length < 4 then .throw .remainingData { s with m_Blob := [] }
  else .ok () { s with m_Blob := mc.drop 4 }

/-- `idChunk`. -/
def onChunk (mc : List UInt8) : Receive := fun s ↦ .ok () { s with m_Blob := s.m_Blob ++ mc }

/-- The length in a field that has been collected is set where it was not known in advance. -/
def resetLength (blob : List UInt8) : List UInt8 :=
  if BLOB_LENGTH_NOT_AVAILABLE ≤ ofLE ((blob.drop 2).take 4) then
    blob.take 2 ++ (leBytes 4 (blob.length - 2 - 4) ++ blob.drop 6)
  else blob

/-- `idEndBLOB`. -/
def onEndBLOB (mc : List UInt8) : Receive := fun s ↦
  let blob := s.m_Blob ++ mc
  if blob.length = 0 then .ok () s
  -- `GetBuffer(sizeof (VARTYPE))` is read without a check.
  else if blob.length < 6 then .fault
  else
    match CDBVariant.pop cv f (resetLength blob) with
    | .ok vt rest => .ok () { m_vData := s.m_vData ++ [vt], m_Blob := rest }
    | .throw e rest => .throw e { m_vData := s.m_vData ++ [.null], m_Blob := rest }
    | .fault => .fault

/-- What a receiver of rows does with a frame; both kinds of row frames hold fields. -/
def receive (frame : Frame) : Receive :=
  match frame.reqId with
  | .idBeginRows | .idTransferring => onTransferring cv f frame.body
  | .idStartBLOB => onStartBLOB frame.body
  | .idChunk => onChunk frame.body
  | .idEndBLOB => onEndBLOB cv f frame.body
  | .idRowsetHeader | .idEndRows => pure ()

end Receiver

/-- Handle frames one after the other. -/
def handleAll {σ : Type} (handle : Frame → Effect CUException σ Unit) :
    List Frame → Effect CUException σ Unit
  | [] => pure ()
  | frame :: frames => do
    handle frame
    handleAll handle frames

section HandleAll

variable {σ : Type} {handle : Frame → Effect CUException σ Unit}

theorem handleAll_append {fs gs : List Frame} {s t : σ} (h : handleAll handle fs s = .ok () t) :
    handleAll handle (fs ++ gs) s = handleAll handle gs t := by
  induction fs generalizing s with
  | nil =>
    cases h
    rfl
  | cons frame fs ih =>
    rw [handleAll, Effect.bind_apply] at h
    rw [List.cons_append, handleAll, Effect.bind_apply]
    cases hframe : handle frame s with
    | ok a u =>
      rw [hframe] at h
      exact ih h
    | throw e u =>
      rw [hframe] at h
      cases h
    | fault =>
      rw [hframe] at h
      cases h

/-- Two handlers that agree on the frames. -/
theorem handleAll_congr {handle' : Frame → Effect CUException σ Unit} {fs : List Frame}
    (h : ∀ frame ∈ fs, handle frame = handle' frame) :
    handleAll handle fs = handleAll handle' fs := by
  induction fs with
  | nil => rfl
  | cons frame fs ih =>
    rw [handleAll, handleAll, h frame List.mem_cons_self,
      ih fun g hg ↦ h g (List.mem_cons_of_mem frame hg)]

theorem handleAll_singleton (frame : Frame) (s : σ) :
    handleAll handle [frame] s = handle frame s := by
  rw [handleAll, Effect.bind_apply]
  cases handle frame s <;> rfl

end HandleAll

/-! ### What frames deliver -/

variable {cv : Converters} {f : Flags}

/-- Receiving the frames appends the fields `vs`, as they are received. -/
def Delivers (cv : Converters) (f : Flags) (frames : List Frame) (vs : List CDBVariant) : Prop :=
  ∀ s : RowBuffer, ∃ blob, handleAll (receive cv f) frames s =
    .ok () ⟨s.m_vData ++ vs.map (CDBVariant.received cv f), blob⟩

theorem Delivers.nil : Delivers cv f [] [] := fun s ↦
  ⟨s.m_Blob, by rw [List.map_nil, List.append_nil]; rfl⟩

/-- **Deliveries add up.** -/
theorem Delivers.append {fs gs : List Frame} {vs ws : List CDBVariant} (hf : Delivers cv f fs vs)
    (hg : Delivers cv f gs ws) : Delivers cv f (fs ++ gs) (vs ++ ws) := by
  intro s
  obtain ⟨blob, hblob⟩ := hf s
  obtain ⟨blob', hblob'⟩ := hg ⟨s.m_vData ++ vs.map (CDBVariant.received cv f), blob⟩
  refine ⟨blob', ?_⟩
  rw [handleAll_append hblob, hblob', List.map_append, List.append_assoc]

/-- The loop pops whole fields until nothing is left. -/
theorem popRows_ok (cv : Converters) (hf : f.m_ToUtf8 = false) {vs : List CDBVariant}
    (hvs : ∀ v ∈ vs, v.Field)
    {fuel : ℕ} (hlen : (vs.flatMap CDBVariant.bytes).length < 2 ^ 32) (hfuel : vs.length ≤ fuel)
    (s : RowBuffer) : popRows cv f fuel (vs.flatMap CDBVariant.bytes) s =
      .ok () { s with m_vData := s.m_vData ++ vs.map (CDBVariant.received cv f) } := by
  induction vs generalizing fuel s with
  | nil =>
    rw [List.map_nil, List.append_nil]
    cases fuel <;> rfl
  | cons v vs ih =>
    obtain ⟨fuel, rfl⟩ : ∃ n, fuel = n + 1 := Nat.exists_eq_succ_of_ne_zero (by
      rw [List.length_cons] at hfuel
      omega)
    have hpop := CDBVariant.pop_decodes cv (hvs v List.mem_cons_self) hf _ hlen
    have hne : ((v :: vs).flatMap CDBVariant.bytes).length ≠ 0 := by
      rw [List.flatMap_cons, ne_eq, List.length_eq_zero_iff, List.append_eq_nil_iff]
      exact fun h ↦ v.bytes_ne_nil h.1
    simp only [popRows, if_neg hne]
    rw [List.flatMap_cons, List.length_append] at hlen
    have hrest := fun t ↦ ih (fun w hw ↦ hvs w (List.mem_cons_of_mem v hw)) (by omega)
      (Nat.le_of_succ_le_succ hfuel) t
    have hpop' : CDBVariant.pop cv f ((v :: vs).flatMap CDBVariant.bytes) =
        .ok (v.received cv f) (vs.flatMap CDBVariant.bytes) := hpop
    simp only [hpop', hrest, List.map_cons, List.append_assoc, List.cons_append, List.nil_append]

theorem length_le_length_flatMap (vs : List CDBVariant) :
    vs.length ≤ (vs.flatMap CDBVariant.bytes).length := by
  induction vs with
  | nil => exact Nat.zero_le _
  | cons v vs ih =>
    have hpos : 0 < v.bytes.length := List.length_pos_iff.2 v.bytes_ne_nil
    rw [List.flatMap_cons, List.length_append, List.length_cons]
    omega

/-- A frame with whole fields is popped completely. -/
theorem onTransferring_ok (cv : Converters) (hf : f.m_ToUtf8 = false) {vs : List CDBVariant}
    (hvs : ∀ v ∈ vs, v.Field) (hlen : (vs.flatMap CDBVariant.bytes).length < 2 ^ 32)
    (s : RowBuffer) : onTransferring cv f (vs.flatMap CDBVariant.bytes) s =
      .ok () { s with m_vData := s.m_vData ++ vs.map (CDBVariant.received cv f) } :=
  popRows_ok cv hf hvs hlen (length_le_length_flatMap vs) s

/-- **A row frame with whole fields delivers them.** -/
theorem delivers_pack (cv : Converters) (hf : f.m_ToUtf8 = false) {vs : List CDBVariant}
    (hvs : ∀ v ∈ vs, v.Field)
    (hlen : (vs.flatMap CDBVariant.bytes).length < 2 ^ 32) {reqId : RowReqId}
    (hreq : reqId = .idBeginRows ∨ reqId = .idTransferring) :
    Delivers cv f [⟨reqId, vs.flatMap CDBVariant.bytes⟩] vs := by
  intro s
  refine ⟨s.m_Blob, ?_⟩
  rw [handleAll_singleton, receive]
  rcases hreq with rfl | rfl
  · exact onTransferring_ok cv hf hvs hlen s
  · exact onTransferring_ok cv hf hvs hlen s

/-! ### Large fields -/

/-- A field whose bytes are its tag, the number of bytes that follow, and these bytes: a string, an
ASCII string or a binary. -/
structure Large (v : CDBVariant) (data : List UInt8) : Prop where
  bytes : v.bytes = leBytes 2 v.value.vt ++ (leBytes 4 data.length ++ data)
  lt : data.length < 2 ^ 32

namespace Large

variable {v : CDBVariant} {data : List UInt8}

theorem drop_two (h : Large v data) : v.bytes.drop 2 = leBytes 4 data.length ++ data := by
  rw [h.bytes, List.drop_left' (length_leBytes 2 _)]

theorem drop_six (h : Large v data) : v.bytes.drop 6 = data := by
  rw [show (6 : ℕ) = 2 + 4 from rfl, ← List.drop_drop, h.drop_two,
    List.drop_left' (length_leBytes 4 _)]

theorem length_field (h : Large v data) : ofLE ((v.bytes.drop 2).take 4) = data.length := by
  rw [h.drop_two, List.take_left' (length_leBytes 4 _), ofLE_leBytes_of_lt h.lt]

theorem length_bytes (h : Large v data) : v.bytes.length = data.length + 6 := by
  rw [h.bytes]
  simp only [List.length_append, length_leBytes]
  omega

/-- A string that is not null. -/
theorem of_bstr {us : List UInt16} (h : v.value = .bstr (some us))
    (hlt : v.bytes.length < 2 ^ 32) : Large v (utf16Bytes us) := by
  have hguid : v.guid? = none := by
    obtain ⟨value, vte⟩ := v
    change value = _ at h
    subst h
    rfl
  have hbytes : v.bytes = leBytes 2 v.value.vt ++
      (leBytes 4 (utf16Bytes us).length ++ utf16Bytes us) := by
    rw [CDBVariant.bytes_of_normal hguid, VARIANT.encode_eq, h, length_utf16Bytes]
    exact congrArg _ (encodeBSTR_some us)
  refine ⟨hbytes, ?_⟩
  rw [hbytes] at hlt
  simp only [List.length_append] at hlt
  omega

/-- An array of one byte elements that is not written as a GUID. -/
theorem of_array {t : ScalarVT} {n : ℕ} (h : v.value = .scalarArray t n data)
    (ht : t.size = 1) (hv : v.value.WellFormed) (hguid : v.guid? = none) :
    Large v data ∧ data.length = n := by
  rw [h] at hv
  obtain ⟨hn, hdata⟩ : n < 2 ^ 32 ∧ data.length = n * t.size := by
    cases hv with
    | scalarArray hn hdata => exact ⟨hn, hdata⟩
  have hlen : data.length = n := by rw [hdata, ht, Nat.mul_one]
  refine ⟨⟨?_, hlen ▸ hn⟩, hlen⟩
  rw [CDBVariant.bytes_of_normal hguid, h, encode_scalarArray t hdata, hlen]
  rfl

end Large

/-- Setting the length of a large field changes nothing, known or not. -/
theorem resetLength_large {v : CDBVariant} {data : List UInt8} (h : Large v data) :
    resetLength v.bytes = v.bytes := by
  have hlen : v.bytes.length - 2 - 4 = data.length := by
    rw [h.length_bytes]
    omega
  rw [resetLength, h.drop_six, hlen]
  split
  · rw [← h.drop_two, List.take_append_drop]
  · rfl

/-- The chunks in the middle of a field are collected. -/
theorem handleAll_chunks (chunks : List (List UInt8)) (s : RowBuffer) :
    handleAll (receive cv f) (chunks.map (Frame.mk .idChunk)) s =
      .ok () { s with m_Blob := s.m_Blob ++ chunks.flatten } := by
  induction chunks generalizing s with
  | nil => rw [List.flatten_nil, List.append_nil]; rfl
  | cons chunk chunks ih =>
    have hchunk : receive cv f ⟨.idChunk, chunk⟩ s =
        .ok () { s with m_Blob := s.m_Blob ++ chunk } := rfl
    rw [List.map_cons, handleAll, Effect.bind_ok hchunk, ih, List.flatten_cons, List.append_assoc]

/-- The frames of a field that is cut into a first part, parts in the middle and a last part. -/
def blobFrames (len head : List UInt8) (chunks : List (List UInt8)) (last : List UInt8) :
    List Frame :=
  ⟨.idStartBLOB, len ++ head⟩ :: (chunks.map (Frame.mk .idChunk) ++ [⟨.idEndBLOB, last⟩])

/-- **A large field delivers itself wherever it is cut.** -/
theorem delivers_blob (cv : Converters) (hf : f.m_ToUtf8 = false) {v : CDBVariant} (hv : v.Field)
    {data : List UInt8} (hlarge : Large v data) (hlt : v.bytes.length < 2 ^ 32)
    {len head last : List UInt8} {chunks : List (List UInt8)} (hlen : len.length = 4)
    (hcut : head ++ chunks.flatten ++ last = v.bytes) :
    Delivers cv f (blobFrames len head chunks last) [v] := by
  intro s
  have hstart : receive cv f ⟨.idStartBLOB, len ++ head⟩ s = .ok () { s with m_Blob := head } := by
    have hge : ¬ (len ++ head).length < 4 := by
      rw [List.length_append]
      omega
    show onStartBLOB (len ++ head) s = _
    rw [onStartBLOB, if_neg hge, List.drop_left' hlen]
  have hsix : ¬ v.bytes.length < 6 := by
    rw [hlarge.length_bytes]
    omega
  have hpop : CDBVariant.pop cv f (resetLength v.bytes) = .ok (v.received cv f) [] := by
    have hdec := CDBVariant.pop_decodes cv hv hf [] (by rwa [List.append_nil])
    rwa [List.append_nil, ← resetLength_large hlarge] at hdec
  have hend : receive cv f ⟨.idEndBLOB, last⟩ { s with m_Blob := head ++ chunks.flatten } =
      .ok () ⟨s.m_vData ++ [v.received cv f], []⟩ := by
    show onEndBLOB cv f last _ = _
    simp only [onEndBLOB, hcut, if_neg hsix, hpop]
    rw [if_neg fun h0 ↦ hsix (by omega)]
  refine ⟨[], ?_⟩
  rw [blobFrames, handleAll, Effect.bind_ok hstart, handleAll_append (handleAll_chunks chunks _),
    handleAll_singleton]
  exact hend

end SocketPro.Database
