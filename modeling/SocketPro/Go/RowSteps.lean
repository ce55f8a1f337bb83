import SocketPro.Go.RowStorage

/-!
# What a frame with rows does

For each frame, what it makes of what is stored: `transferring_ok`, `startBLOB_ok`, `chunk_ok` and
`endBLOB_ok` in the middle of a group, `endRows_ok`, `beginRows_ok` and `rowsetHeader_ok` where a
group ends or none has begun. Each frame is received first (`step_ok`, `boundary_ok`).
-/

namespace SocketPro.Go.Slices

open Bytes Machine CUQueue

/-! ### The frames of a group -/

section Frames

variable {s : CDBHandler} {vs vs' : List Value} {blob blob' : List UInt8} {f : Frame}

/-- A frame in the middle of a group: it is received, and then what its case does. -/
theorem step_ok (h : Stored s vs blob) (hf : Undisturbed s f)
    (hcase : ∀ t, Stored t vs blob → t.buffer.content t.arrays = f.body.1 →
      s.arrays.Grows t.arrays → t.m_blob = s.m_blob → t.m_vData = s.m_vData →
      Collects (requestProcessed f.reqId) t fun u ↦ Stored u vs' blob') :
    ∃ u, step s f = some u ∧ SameBooks s u ∧ Stored u vs' blob' := by
  obtain ⟨t, ht, hstored, hbody, hgrows, hblob, hdata, hbooks⟩ := receive_ok h f.body hf.buffer
  obtain ⟨u, hu, hbooks', hstored'⟩ := hcase t hstored hbody hgrows hblob hdata
  refine ⟨{ u with buffer := u.buffer.emptied }, ?_, ?_,
    hstored'.of_buffer hstored'.buffer.emptied rfl⟩
  · rw [step, requestprocessed_go, Effect.bind_ok ht, Effect.bind_ok hu, emptyBuffer_ok]
  · have hall := hbooks.trans hbooks'
    exact ⟨hall.1, hall.2, hall.3⟩

/-- Small cells. -/
theorem transferring_ok (cells : List Cell) (h : Stored s vs blob) (hf : Undisturbed s f)
    (hreq : f.reqId = .Transferring) (hbody : f.body.1 = cells.flatMap Encoded.bytes) :
    ∃ u, step s f = some u ∧ SameBooks s u ∧ Stored u (vs ++ cells.map Encoded.value) blob :=
  step_ok h hf fun t hstored hcontent _ _ _ ↦ by
    rw [hreq]
    exact loadAll_ok hstored (hcontent.trans hbody)

/-- `m_blob` gets what is in the buffer, which is then empty. -/
theorem pushBlob_emptyBuffer_ok (h : Stored s vs blob) {bytes : List UInt8}
    (hbytes : s.buffer.content s.arrays = bytes)
    (hapart : ∀ w ∈ s.views, s.m_blob.PushApart s.arrays bytes.length w)
    (hfits : s.m_blob.Fits s.arrays bytes.length) :
    Collects (do pushBlob; emptyBuffer) s fun t ↦ Stored t vs (blob ++ bytes) := by
  obtain ⟨t, ht, hbooks, hstored⟩ := pushBlob_ok h hbytes hapart hfits
  refine ⟨{ t with buffer := t.buffer.emptied }, ?_, ⟨hbooks.1, hbooks.2, hbooks.3⟩,
    hstored.of_buffer hstored.buffer.emptied rfl⟩
  rw [Effect.bind_ok ht, emptyBuffer_ok]

/-- What is known before a frame is received holds after it. -/
theorem Undisturbed.push {t : CDBHandler} (hf : Undisturbed s f) (h : Stored s vs blob)
    (hfor : blobFor s f = (s.arrays, s.m_blob)) (hn : pushed f = f.body.1.length)
    (hgrows : s.arrays.Grows t.arrays) (hblob : t.m_blob = s.m_blob)
    (hdata : t.m_vData = s.m_vData) :
    (∀ w ∈ t.views, t.m_blob.PushApart t.arrays f.body.1.length w) ∧
      t.m_blob.Fits t.arrays f.body.1.length := by
  have hapart := hf.blob
  have hfits := hf.fits
  rw [hfor, hn] at hapart hfits
  rw [hblob, CDBHandler.views, hdata]
  exact ⟨fun w hw ↦ (hapart w hw).of_grows h.m_blob hgrows, hfits.of_grows h.m_blob hgrows⟩

/-- A piece in the middle of a large cell. -/
theorem chunk_ok {chunk : Body} (h : Stored s vs blob) (hf : Undisturbed s ⟨.Chunk, chunk⟩) :
    ∃ u, step s ⟨.Chunk, chunk⟩ = some u ∧ SameBooks s u ∧ Stored u vs (blob ++ chunk.1) :=
  step_ok h hf fun t hstored hcontent hgrows hblob hdata ↦ by
    obtain ⟨hapart, hfits⟩ := hf.push h rfl rfl hgrows hblob hdata
    have hsize := hstored.buffer.getSize
    rw [hcontent] at hsize
    show Collects onChunk t _
    by_cases hempty : chunk.1 = []
    · refine ⟨t, ?_, .refl t, ?_⟩
      · have hzero : ¬ 0 < t.buffer.GetSize := by
          rw [hsize]
          simp [hempty]
        rw [onChunk, if_neg hzero]
      · rwa [hempty, List.append_nil]
    · have hpos : 0 < t.buffer.GetSize := by
        rw [hsize]
        exact List.length_pos_iff.2 hempty
      obtain ⟨u, hu, hcollected⟩ := pushBlob_emptyBuffer_ok hstored hcontent hapart hfits
      exact ⟨u, by rw [onChunk, if_pos hpos, hu], hcollected⟩

/-- What is reserved for an empty queue does not depend on the other arrays. -/
theorem reserved_cases {m m' : Arrays} {q : CUQueue} (hq : q.Sound m) (hm : m.Grows m') (len : ℕ) :
    reserved m q.emptied len = (m, q.emptied) ∧ reserved m' q.emptied len = (m', q.emptied) ∨
      reserved m q.emptied len =
        (m.alloc (zeros len), { q.emptied with buffer := some m.length }) ∧
      reserved m' q.emptied len =
        (m'.alloc (zeros len), { q.emptied with buffer := some m'.length }) := by
  have hsame : q.emptied.GetMaxSize m' = q.emptied.GetMaxSize m := by
    rw [GetMaxSize, GetMaxSize, emptied_buffer]
    split
    · rfl
    · next a ha => exact hm.same a (hq.array a ha).1
  rw [reserved, reserved, hsame]
  split
  · next h =>
    have hlen : len ≠ 0 := Nat.ne_of_gt (Nat.lt_of_le_of_lt (Nat.zero_le _) h.2)
    rw [realloc_emptied m q hlen, realloc_emptied m' q hlen]
    exact .inr ⟨rfl, rfl⟩
  · exact .inl ⟨rfl, rfl⟩

/-- An empty `m_blob` gets an array of the size that is announced. -/
theorem Stored.reserved (h : Stored s vs []) (hempty : s.m_blob.emptied = s.m_blob) {len : ℕ}
    (hlen : len < 2 ^ 32) :
    Stored { s with
      arrays := (reserved s.arrays s.m_blob len).1,
      m_blob := (reserved s.arrays s.m_blob len).2 } vs [] := by
  rcases reserved_cases h.m_blob (.refl _) len with ⟨hsame, _⟩ | ⟨hfresh, _⟩
  · rw [hempty] at hsame
    rw [hsame]
    exact h
  · rw [hempty] at hfresh
    rw [hfresh]
    have hgrows : s.arrays.Grows (s.arrays.alloc (zeros len)) := .alloc _ _
    have hviews : ∀ w ∈ s.views, (s.arrays.alloc (zeros len)).read w = s.arrays.read w :=
      fun w hw ↦ Store.read_alloc (h.valid w hw).1
    have hsound := sound_fresh s.arrays s.m_blob hlen
    rw [hempty] at hsound
    refine ⟨h.buffer.of_grows hgrows, hsound, h.block_pos, h.block_lt, fun a ha hab ↦ ?_,
      fun w hw ↦ hgrows.valid (h.valid w hw), fun w hw a ha ↦ .inl ?_,
      (Stored.data_congr hviews).trans h.data, ?_⟩
    · obtain rfl : s.arrays.length = a := Option.some.inj hab
      exact Nat.lt_irrefl _ (h.buffer.array _ ha).1
    · obtain rfl : s.arrays.length = a := Option.some.inj ha
      exact Nat.ne_of_lt (h.valid w hw).1
    · have hlen : s.m_blob.len = 0 := by
        rw [← hempty]
        rfl
      show List.take s.m_blob.len _ = []
      rw [hlen, List.take_zero]

/-- The beginning of a large cell. -/
theorem startBLOB_ok {expected : ℕ} {head : List UInt8} (h : Stored s vs blob)
    (hf : Undisturbed s f) (hreq : f.reqId = .StartBLOB) (hexpected : expected < 2 ^ 32)
    (hbody : f.body.1 = leBytes 4 expected ++ head) :
    ∃ u, step s f = some u ∧ SameBooks s u ∧ Stored u vs head :=
  step_ok h hf fun t hstored hcontent hgrows hblob hdata ↦ by
    rw [hbody] at hcontent
    have hpos : 0 < t.buffer.GetSize := by
      rw [hstored.buffer.getSize, hcontent, List.length_append, length_leBytes]
      omega
    -- `m_blob` is emptied and the length is read
    have hemptied := hstored.emptied
    obtain ⟨hload, hrest⟩ := load_ok hemptied.buffer (LoadUInt_decodes hexpected) hcontent
    have hread : onBuffer (load · LoadUInt) { t with m_blob := t.m_blob.emptied } =
        .ok expected { t with m_blob := t.m_blob.emptied,
                              buffer := t.buffer.advance (leBytes 4 expected).length } := by
      rw [onBuffer, hload]
    have hadvanced := hemptied.of_buffer (hemptied.buffer.advance (leBytes 4 expected).length) rfl
    have hreserved := hadvanced.reserved rfl hexpected
    -- the condition is about the array that is reserved
    have hannounced : announced f.body = expected := by
      rw [announced, hbody, List.take_left' (length_leBytes 4 _)]
      exact ofLE_leBytes_of_lt hexpected
    have hn : pushed f = head.length := by
      rw [pushed, hreq]
      show f.body.1.length - 4 = head.length
      rw [hbody, List.length_append, length_leBytes, Nat.add_sub_cancel_left]
    have hfor : blobFor s f = reserved s.arrays s.m_blob.emptied expected := by
      rw [blobFor, hreq]
      show reserved s.arrays (s.m_blob.SetSize s.arrays 0) (announced f.body) = _
      rw [setSize_zero, hannounced]
    have hcond : (∀ w ∈ t.views, (reserved t.arrays t.m_blob.emptied expected).2.PushApart
          (reserved t.arrays t.m_blob.emptied expected).1 head.length w) ∧
        (reserved t.arrays t.m_blob.emptied expected).2.Fits
          (reserved t.arrays t.m_blob.emptied expected).1 head.length := by
      have hapart := hf.blob
      have hfits := hf.fits
      rw [hfor, hn] at hapart hfits
      rw [hblob]
      rcases reserved_cases h.m_blob hgrows expected with ⟨hs, ht⟩ | ⟨hs, ht⟩
      · rw [hs] at hapart hfits
        rw [ht, CDBHandler.views, hdata]
        exact ⟨fun w hw ↦ (hapart w hw).of_grows h.m_blob.emptied hgrows,
          hfits.of_grows h.m_blob.emptied hgrows⟩
      · rw [hs] at hfits
        rw [ht]
        refine ⟨fun w hw a ha _ ↦ .inl ?_, fits_fresh hfits⟩
        obtain rfl : t.arrays.length = a := Option.some.inj ha
        exact Nat.ne_of_lt (hstored.valid w hw).1
    have hbytes : content (reserved t.arrays t.m_blob.emptied expected).1
        (t.buffer.advance (leBytes 4 expected).length) = head := by
      rw [← hrest]
      refine content_congr fun w hw ↦ ?_
      rcases reserved_cases hstored.m_blob (.refl _) expected with ⟨ht, _⟩ | ⟨ht, _⟩
      · rw [ht]
      · rw [ht]
        exact Store.read_alloc (hadvanced.buffer.slice_valid hw).1
    obtain ⟨u, hu, hbooks, hcollected⟩ :=
      pushBlob_emptyBuffer_ok hreserved hbytes hcond.1 hcond.2
    refine ⟨u, ?_, ⟨hbooks.1, hbooks.2, hbooks.3⟩, hcollected⟩
    rw [hreq]
    show onStartBLOB t = _
    rw [onStartBLOB, if_pos hpos, Effect.bind_ok (emptyBlob_ok t), Effect.bind_ok hread]
    exact hu

/-- A large cell is read off `m_blob`. -/
theorem loadBlob_ok {cell : Cell} (h : Stored s vs cell.bytes) :
    Collects (do
      let o ← onBlob CUQueue.LoadObject
      appendData o
      emptyBlob) s fun t ↦ Stored t (vs ++ [cell.value]) [] := by
  have hcontent : s.m_blob.content s.arrays = cell.bytes ++ [] := by
    rw [List.append_nil, h.content]
  obtain ⟨o, ho, _, hvalue, hviews⟩ := loadObject_ok h.m_blob cell.decodes hcontent
  have hread : onBlob CUQueue.LoadObject s =
      .ok o { s with m_blob := s.m_blob.advance cell.bytes.length } := by
    rw [onBlob, ho]
  refine ⟨{ s with m_blob := s.m_blob.emptied, m_vData := s.m_vData ++ [o] }, ?_, ⟨rfl, rfl, rfl⟩,
    h.emptied.append hvalue fun w hw ↦ ⟨(hviews w hw).1, fun a _ ↦ .inr (.inr (.inl rfl))⟩⟩
  rw [Effect.bind_ok hread, Effect.bind_ok (appendData_ok _ o), emptyBlob_ok]
  rfl

/-- **The end of a large cell**: it is read off `m_blob` as it was sent. -/
theorem endBLOB_ok {cell : Cell} {last : Body} {tag data : List UInt8} {length : ℕ}
    (h : Stored s vs blob) (hf : Undisturbed s ⟨.EndBLOB, last⟩)
    (hcut : blob ++ last.1 = tag ++ (leBytes 4 length ++ data)) (htag : tag.length = 2)
    (hlength : length < 2 ^ 32) (hknown : length = data.length ∨ BLOB_LENGTH_NOT_AVAILABLE ≤ length)
    (hcell : cell.bytes = tag ++ (leBytes 4 data.length ++ data)) :
    ∃ u, step s ⟨.EndBLOB, last⟩ = some u ∧ SameBooks s u ∧ Stored u (vs ++ [cell.value]) [] :=
  step_ok h hf fun t hstored hcontent hgrows hblob hdata ↦ by
    obtain ⟨hapart, hfits⟩ := hf.push h rfl rfl hgrows hblob hdata
    obtain ⟨u, hu, hbooks, hpushed⟩ := pushBlob_emptyBuffer_ok hstored hcontent hapart hfits
    simp only [hcut] at hpushed
    obtain ⟨v, hv, hbooks', hreset⟩ := resetLength_ok htag hlength hknown hpushed
    rw [← hcell] at hreset
    obtain ⟨w, hw, hbooks'', hcollected⟩ := loadBlob_ok hreset
    have hsome : 0 < t.buffer.GetSize ∨ 0 < t.m_blob.GetSize := by
      rw [hstored.buffer.getSize, hstored.m_blob.getSize, hcontent, hstored.content]
      have hlen := congrArg List.length hcut
      rw [List.length_append, List.length_append, htag] at hlen
      show 0 < last.1.length ∨ 0 < blob.length
      omega
    refine ⟨w, ?_, (hbooks.trans hbooks').trans hbooks'', hcollected⟩
    show onEndBLOB t = _
    rw [onEndBLOB, if_pos hsome]
    obtain ⟨_, p, hp, hrest⟩ := Effect.bind_eq_ok.1 hu
    rw [Effect.bind_ok hp, Effect.bind_ok hrest, Effect.bind_ok hv, hw]

end Frames

/-! ### Between groups -/

section Boundaries

variable {s : CDBHandler} {f : Frame}

/-- No cells are collected. -/
def Ready (s : CDBHandler) : Prop := ∃ blob, Stored s [] blob

/-- A frame between groups: it is received, and then what its case does. -/
theorem boundary_ok {vs : List Value} {blob : List UInt8} {Q : CDBHandler → Prop}
    (hQ : ∀ u q, Q u → Q { u with buffer := q }) (h : Stored s vs blob) (hf : Undisturbed s f)
    (hcase : ∀ t, Stored t vs blob → t.buffer.content t.arrays = f.body.1 → SameBooks s t →
      ∃ u, requestProcessed f.reqId t = .ok () u ∧ Ready u ∧ Q u) :
    ∃ u, step s f = some u ∧ Ready u ∧ Q u := by
  obtain ⟨t, ht, hstored, hbody, _, _, _, hbooks⟩ := receive_ok h f.body hf.buffer
  obtain ⟨u, hu, ⟨blob', hready⟩, hu'⟩ := hcase t hstored hbody hbooks
  refine ⟨{ u with buffer := u.buffer.emptied }, ?_,
    ⟨blob', hready.of_buffer hready.buffer.emptied rfl⟩, hQ u _ hu'⟩
  rw [step, requestprocessed_go, Effect.bind_ok ht, Effect.bind_ok hu, emptyBuffer_ok]

/-- What the callbacks of an index are. -/
def hasRow (callbacks : List (ℕ × cRowsetHandler)) (index : ℕ) : Bool :=
  ((callbacks.lookup index).map cRowsetHandler.row).getD false

def hasHeader (callbacks : List (ℕ × cRowsetHandler)) (index : ℕ) : Bool :=
  ((callbacks.lookup index).map cRowsetHandler.rh).getD false

/-- The books after a frame: the index that is in use and what has been called. -/
structure Books (s t : CDBHandler) (index : ℕ) (calls : List Call) : Prop where
  m_indexRowset : t.m_indexRowset = index
  m_mapRowset : t.m_mapRowset = s.m_mapRowset
  calls : t.calls = s.calls ++ calls

/-- What the callback gets for the cells that have been collected. -/
def rowCalls (callbacks : List (ℕ × cRowsetHandler)) (index : ℕ) (vs : List Value) : List Call :=
  if vs ≠ [] ∧ hasRow callbacks index then [.rows index false vs] else []

/-- What the callback gets for the descriptions of columns. -/
def headerCalls (callbacks : List (ℕ × cRowsetHandler)) (index : ℕ) (cols : List CDBColumnInfo)
    (outputs : ℕ) : List Call :=
  if outputs = 0 ∧ cols ≠ [] ∧ hasHeader callbacks index then [.header index] else []

/-- What `callRow` calls. -/
def rowCall (s : CDBHandler) : List Call :=
  if hasRow s.m_mapRowset s.m_indexRowset then
    [.rows s.m_indexRowset false (s.m_vData.map (Object.value s.arrays))]
  else []

theorem callRow_ok (s : CDBHandler) :
    callRow false s = .ok () { s with calls := s.calls ++ rowCall s } := by
  rw [callRow, update, rowCall, hasRow]
  rcases s.m_mapRowset.lookup s.m_indexRowset with - | ⟨rh, - | -⟩
  · show Outcome.ok () s = Outcome.ok () { s with calls := s.calls ++ [] }
    rw [List.append_nil]
  · show Outcome.ok () s = Outcome.ok () { s with calls := s.calls ++ [] }
    rw [List.append_nil]
  · rfl

/-- **The end of a group**: the callback gets the cells of all frames of the group. -/
theorem endRows_ok {vs : List Value} {blob : List UInt8} (cells : List Cell)
    (h : Stored s vs blob) (hf : Undisturbed s f) (hreq : f.reqId = .EndRows)
    (hbody : f.body.1 = cells.flatMap Encoded.bytes) :
    ∃ u, step s f = some u ∧ Ready u ∧ Books s u s.m_indexRowset
      (rowCalls s.m_mapRowset s.m_indexRowset (vs ++ cells.map Encoded.value)) := by
  refine boundary_ok (fun u q hu ↦ ⟨hu.1, hu.2, hu.3⟩) h hf fun t hstored hcontent hbooks ↦ ?_
  rw [hbody] at hcontent
  rw [hreq]
  show ∃ u, onEndRows t = _ ∧ _
  by_cases hsome : 0 < t.buffer.GetSize ∨ t.m_vData ≠ []
  · obtain ⟨u, hu, hsame, hcollected⟩ := loadAll_ok hstored hcontent
    have hne : vs ++ cells.map Encoded.value ≠ [] := by
      rw [← hstored.data, ne_eq, List.append_eq_nil_iff, List.map_eq_nil_iff, List.map_eq_nil_iff]
      rintro ⟨hdata, rfl⟩
      rw [hstored.buffer.getSize, hcontent] at hsome
      exact hsome.elim (Nat.lt_irrefl 0) (absurd hdata)
    have hcall : rowCall u =
        rowCalls s.m_mapRowset s.m_indexRowset (vs ++ cells.map Encoded.value) := by
      have hall := hbooks.trans hsame
      rw [rowCall, rowCalls, hall.m_indexRowset, hall.m_mapRowset, hcollected.data]
      simp only [hne, ne_eq, not_false_eq_true, true_and]
    refine ⟨{ u with calls := u.calls ++ rowCall u, m_vData := [] }, ?_,
      ⟨blob, hcollected.cleared.of_books rfl rfl rfl rfl⟩, ?_⟩
    · have hdeliver : deliverRows t = .ok () { u with calls := u.calls ++ rowCall u } := by
        rw [deliverRows, if_pos hsome, Effect.bind_ok hu, callRow_ok]
      rw [onEndRows, Effect.bind_ok hdeliver, update]
    · have hall := hbooks.trans hsame
      refine ⟨hall.m_indexRowset, hall.m_mapRowset, ?_⟩
      show u.calls ++ rowCall u = _
      rw [hcall, hall.calls]
  · have hnone : vs ++ cells.map Encoded.value = [] := by
      rw [not_or, not_not, hstored.buffer.getSize, hcontent] at hsome
      have hle := length_le_flatMap_bytes cells
      have hcells : cells = [] := List.length_eq_zero_iff.1 (by omega)
      rw [← hstored.data, hsome.2, hcells]
      rfl
    refine ⟨{ t with m_vData := [] }, ?_, ⟨blob, hstored.cleared⟩, hbooks.m_indexRowset,
      hbooks.m_mapRowset, ?_⟩
    · have hdeliver : deliverRows t = .ok () t := by rw [deliverRows, if_neg hsome]
      rw [onEndRows, Effect.bind_ok hdeliver, update]
    · have hcalls : rowCalls s.m_mapRowset s.m_indexRowset (vs ++ cells.map Encoded.value) = [] :=
        if_neg fun h ↦ h.1 hnone
      rw [hcalls, List.append_nil]
      exact hbooks.calls

/-- A reader of the buffer. -/
theorem onBuffer_ok {α : Type} {x : Reader α} {a : α} {bytes rest : List UInt8}
    (h : s.buffer.Sound s.arrays) (hx : Decodes LIMIT x bytes a)
    (hc : s.buffer.content s.arrays = bytes ++ rest) :
    onBuffer (load · x) s = .ok a { s with buffer := s.buffer.advance bytes.length } ∧
      (s.buffer.advance bytes.length).content s.arrays = rest := by
  obtain ⟨hload, hrest⟩ := load_ok h hx hc
  refine ⟨?_, hrest⟩
  rw [onBuffer]
  simp only [hload]

/-- The beginning of rows, with the index of the callbacks or without it. -/
theorem beginRows_ok {index : Option UInt64} (h : Ready s) (hf : Undisturbed s f)
    (hreq : f.reqId = .BeginRows)
    (hbody : f.body.1 = index.elim [] fun i ↦ leBytes 8 i.toNat) :
    ∃ u, step s f = some u ∧ Ready u ∧
      Books s u (index.elim s.m_indexRowset UInt64.toNat) [] := by
  obtain ⟨blob, hstored⟩ := h
  refine boundary_ok (fun u q hu ↦ ⟨hu.1, hu.2, hu.3⟩) hstored hf
    fun t hstored hcontent hbooks ↦ ?_
  rw [hbody] at hcontent
  rw [hreq]
  have hcalls : t.calls = s.calls ++ [] := by rw [hbooks.calls, List.append_nil]
  have hfirst : onBeginRows t = loadIndex { t with m_blob := t.m_blob.emptied, m_vData := [] } := by
    rw [onBeginRows, Effect.bind_ok (emptyBlob_ok t)]
    rfl
  have hemptied := hstored.emptied.cleared
  have hsize := hstored.buffer.getSize
  rw [hcontent] at hsize
  rcases index with - | i
  · have hzero : ¬ 0 < t.buffer.GetSize := by
      rw [hsize]
      exact Nat.lt_irrefl 0
    exact ⟨_, hfirst.trans (if_neg hzero), ⟨[], hemptied⟩, hbooks.m_indexRowset,
      hbooks.m_mapRowset, hcalls⟩
  · have hpos : 0 < t.buffer.GetSize := by
      rw [hsize]
      show 0 < (leBytes 8 i.toNat).length
      rw [length_leBytes]
      decide
    have hcontent' : t.buffer.content t.arrays = leBytes 8 i.toNat ++ [] := by
      rw [List.append_nil, hcontent]
      rfl
    obtain ⟨hread, _⟩ := onBuffer_ok hemptied.buffer (LoadULong_decodes i.toNat_lt) hcontent'
    refine ⟨_, hfirst.trans ((if_pos hpos).trans (Effect.bind_ok hread)),
      ⟨[], (hemptied.of_buffer (hstored.buffer.advance _) rfl).of_books rfl rfl rfl rfl⟩, rfl,
      hbooks.m_mapRowset, hcalls⟩

theorem callHeader_ok (s : CDBHandler) (outputs : ℕ) :
    callHeader outputs s = .ok () { s with
      calls := s.calls ++ headerCalls s.m_mapRowset s.m_indexRowset s.m_vColInfo outputs } := by
  have hnone : s = { s with calls := s.calls ++ [] } := by rw [List.append_nil]
  rw [callHeader, update, headerCalls, hasHeader]
  rcases s.m_mapRowset.lookup s.m_indexRowset with - | cbs
  · rw [if_neg (fun h ↦ Bool.noConfusion h.2.2)]
    exact congrArg _ hnone
  · simp only [Option.map_some, Option.getD_some]
    split
    · rfl
    · exact congrArg _ hnone

/-- The number of output parameters behind the index. -/
theorem loadOutputs_ok {blob : List UInt8} (h : Stored s [] blob) (outputs : Option UInt32)
    (hcontent : s.buffer.content s.arrays = outputs.elim [] fun n ↦ leBytes 4 n.toNat) :
    ∃ q : CUQueue, loadOutputs s = .ok (outputs.elim 0 UInt32.toNat) { s with buffer := q } ∧
      Stored { s with buffer := q } [] blob := by
  have hsize := h.buffer.getSize
  rw [hcontent] at hsize
  rcases outputs with - | n
  · have hzero : ¬ 0 < s.buffer.GetSize := by
      rw [hsize]
      exact Nat.lt_irrefl 0
    exact ⟨s.buffer, if_neg hzero, h⟩
  · have hpos : 0 < s.buffer.GetSize := by
      rw [hsize]
      show 0 < (leBytes 4 n.toNat).length
      rw [length_leBytes]
      decide
    have hcontent' : s.buffer.content s.arrays = leBytes 4 n.toNat ++ [] := by
      rw [List.append_nil, hcontent]
      rfl
    obtain ⟨hread, _⟩ := onBuffer_ok h.buffer (LoadUInt_decodes n.toNat_lt) hcontent'
    exact ⟨_, (if_pos hpos).trans hread, h.of_buffer (h.buffer.advance _) rfl⟩

/-- The descriptions of columns. -/
theorem rowsetHeader_ok {cols : Encoded loadColumnInfoArray} {index : UInt64}
    {outputs : Option UInt32} (h : Ready s) (hf : Undisturbed s f) (hreq : f.reqId = .RowsetHeader)
    (hbody : f.body.1 = cols.bytes ++
      (leBytes 8 index.toNat ++ outputs.elim [] fun n ↦ leBytes 4 n.toNat)) :
    ∃ u, step s f = some u ∧ Ready u ∧ Books s u index.toNat
      (headerCalls s.m_mapRowset index.toNat cols.value (outputs.elim 0 UInt32.toNat)) := by
  obtain ⟨blob, hstored⟩ := h
  refine boundary_ok (fun u q hu ↦ ⟨hu.1, hu.2, hu.3⟩) hstored hf
    fun t hstored hcontent hbooks ↦ ?_
  rw [hbody] at hcontent
  rw [hreq]
  have hcleared : Stored { t with m_vData := [], m_vColInfo := [] } [] blob :=
    hstored.cleared.of_books rfl rfl rfl rfl
  obtain ⟨hcols, hrest⟩ := onBuffer_ok hcleared.buffer cols.decodes hcontent
  have hread : Stored { t with
      m_vData := [], m_vColInfo := cols.value,
      buffer := t.buffer.advance cols.bytes.length } [] blob :=
    (hcleared.of_buffer (hstored.buffer.advance _) rfl).of_books rfl rfl rfl rfl
  obtain ⟨hindex, hrest'⟩ := onBuffer_ok hread.buffer (LoadULong_decodes index.toNat_lt) hrest
  have hread' : Stored { t with
      m_vData := [], m_vColInfo := cols.value,
      buffer := (t.buffer.advance cols.bytes.length).advance (leBytes 8 index.toNat).length,
      m_indexRowset := index.toNat } [] blob :=
    (hread.of_buffer (hread.buffer.advance _) rfl).of_books rfl rfl rfl rfl
  obtain ⟨q, houtputs, hready⟩ := loadOutputs_ok hread' outputs hrest'
  refine ⟨{ t with m_vData := [], m_vColInfo := cols.value, buffer := q,
                   m_indexRowset := index.toNat,
                   calls := t.calls ++ headerCalls t.m_mapRowset index.toNat cols.value
                     (outputs.elim 0 UInt32.toNat) }, ?_,
    ⟨blob, hready.of_books rfl rfl rfl rfl⟩, rfl, hbooks.m_mapRowset, ?_⟩
  · show onRowsetHeader t = _
    rw [onRowsetHeader]
    refine (Effect.bind_ok hcols).trans ?_
    refine (Effect.bind_ok hindex).trans ?_
    exact (Effect.bind_ok houtputs).trans (callHeader_ok _ _)
  · show t.calls ++ _ = _
    rw [hbooks.calls, hbooks.m_mapRowset]

end Boundaries

end SocketPro.Go.Slices
