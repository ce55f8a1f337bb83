import SocketPro.Go.RowSteps

/-!
# What the callback for rows gets

Rows are encoded as groups of cells: small cells packed into frames, and large ones cut into pieces.

* `rows_delivered` — **within the condition every group is delivered once**, with the values of its
  cells in order;
* `not_rows_delivered` — of two large cells of one row the first is overwritten by the second.
-/

namespace SocketPro.Go.Slices

open Bytes Machine CUQueue

/-! ### Rows and their frames -/

/-- A large cell cut into pieces: `data` behind a tag and a length. The length may be known only to
the receiver, when it has the whole cell. -/
structure Blob where
  cell : Cell
  tag : List UInt8
  data : List UInt8
  tag_length : tag.length = 2
  large : cell.bytes = tag ++ (leBytes 4 data.length ++ data)
  /-- What is sent for the length. -/
  length : ℕ
  length_lt : length < 2 ^ 32
  known : length = data.length ∨ BLOB_LENGTH_NOT_AVAILABLE ≤ length
  /-- The size that is announced. -/
  expected : UInt32
  head : List UInt8
  chunks : List Body
  last : Body
  head_lt : (leBytes 4 expected.toNat ++ head).length < 2 ^ 32
  cut : head ++ (chunks.flatMap Subtype.val ++ last.1) = tag ++ (leBytes 4 length ++ data)

/-- The frames of a large cell. -/
def Blob.frames (b : Blob) : List Frame :=
  ⟨.StartBLOB, ⟨leBytes 4 b.expected.toNat ++ b.head, b.head_lt⟩⟩ ::
    (b.chunks.map (Frame.mk .Chunk) ++ [⟨.EndBLOB, b.last⟩])

/-- Small cells in one frame. -/
structure Pack where
  cells : List Cell
  lt : (cells.flatMap Encoded.bytes).length < 2 ^ 32

def Pack.body (p : Pack) : Body := ⟨p.cells.flatMap Encoded.bytes, p.lt⟩

def Pack.values (p : Pack) : List Value := p.cells.map Encoded.value

/-- A part of a group. -/
inductive Piece
  | pack (p : Pack)
  | blob (b : Blob)

def Piece.frames : Piece → List Frame
  | pack p => [⟨.Transferring, p.body⟩]
  | blob b => b.frames

def Piece.values : Piece → List Value
  | pack p => p.values
  | blob b => [b.cell.value]

/-- What is sent one behind the other. -/
inductive Segment
  | header (cols : Encoded loadColumnInfoArray) (index : UInt64) (outputs : Option UInt32)
      (lt : (cols.bytes ++ (leBytes 8 index.toNat ++
        outputs.elim [] fun n ↦ leBytes 4 n.toNat)).length < 2 ^ 32)
  | begin (index : Option UInt64)
  /-- A group of cells; the last small ones come with the end. -/
  | rows (pieces : List Piece) (last : Pack)

theorem length_index (index : Option UInt64) :
    (index.elim [] fun i ↦ leBytes 8 i.toNat).length < 2 ^ 32 := by
  rcases index with - | i
  · decide
  · show (leBytes 8 i.toNat).length < 2 ^ 32
    rw [length_leBytes]
    decide

namespace Segment

/-- The encoding. -/
def frames : Segment → List Frame
  | header cols index outputs lt => [⟨.RowsetHeader, ⟨cols.bytes ++ (leBytes 8 index.toNat ++
      outputs.elim [] fun n ↦ leBytes 4 n.toNat), lt⟩⟩]
  | begin index => [⟨.BeginRows, ⟨index.elim [] fun i ↦ leBytes 8 i.toNat, length_index index⟩⟩]
  | rows pieces last => pieces.flatMap Piece.frames ++ [⟨.EndRows, last.body⟩]

/-- The values of the cells of a group. -/
def values (pieces : List Piece) (last : Pack) : List Value :=
  pieces.flatMap Piece.values ++ last.values

/-- The index of the callbacks behind a segment. -/
def index (i : ℕ) : Segment → ℕ
  | header _ index _ _ => index.toNat
  | begin index => index.elim i UInt64.toNat
  | rows _ _ => i

/-- What the callbacks are to be called with for a segment. -/
def calls (callbacks : List (ℕ × cRowsetHandler)) (i : ℕ) : Segment → List Call
  | header cols index outputs _ =>
    headerCalls callbacks index.toNat cols.value (outputs.elim 0 UInt32.toNat)
  | begin _ => []
  | rows pieces last => rowCalls callbacks i (values pieces last)

end Segment

/-- What the callbacks are to be called with: each group once, with its cells in order. -/
def delivered (callbacks : List (ℕ × cRowsetHandler)) : ℕ → List Segment → List Call
  | _, [] => []
  | i, seg :: segs => seg.calls callbacks i ++ delivered callbacks (seg.index i) segs

/-! ### Runs -/

section Runs

variable {s : CDBHandler} {vs : List Value} {blob : List UInt8}

theorem chunks_lead (chunks : List Body) (h : Stored s vs blob) :
    Leads step Undisturbed s (chunks.map (Frame.mk .Chunk)) fun t ↦
      SameBooks s t ∧ Stored t vs (blob ++ chunks.flatMap Subtype.val) := by
  induction chunks generalizing s blob with
  | nil => exact .nil ⟨.refl s, by rwa [List.flatMap_nil, List.append_nil]⟩
  | cons chunk chunks ih =>
    refine .cons (fun hf ↦ chunk_ok h hf) fun t ht ↦ (ih ht.2).mono fun u hu ↦ ?_
    rw [List.flatMap_cons, ← List.append_assoc]
    exact ⟨ht.1.trans hu.1, hu.2⟩

/-- **A large cell is collected wherever it is cut.** -/
theorem blob_leads (b : Blob) (h : Stored s vs blob) :
    Leads step Undisturbed s b.frames fun t ↦
      SameBooks s t ∧ Stored t (vs ++ [b.cell.value]) [] := by
  refine .cons (fun hf ↦ startBLOB_ok h hf rfl b.expected.toNat_lt rfl) fun t ht ↦ ?_
  refine (chunks_lead b.chunks ht.2).append fun u hu ↦ .single fun hf ↦ ?_
  have hcut : b.head ++ b.chunks.flatMap Subtype.val ++ b.last.1 =
      b.tag ++ (leBytes 4 b.length ++ b.data) := by rw [List.append_assoc, b.cut]
  obtain ⟨v, hv, hbooks, hstored⟩ :=
    endBLOB_ok hu.2 hf hcut b.tag_length b.length_lt b.known b.large
  exact ⟨v, hv, (ht.1.trans hu.1).trans hbooks, hstored⟩

theorem piece_leads (p : Piece) (h : Stored s vs blob) :
    Leads step Undisturbed s p.frames fun t ↦
      SameBooks s t ∧ ∃ blob, Stored t (vs ++ p.values) blob := by
  rcases p with p | b
  · exact .single fun hf ↦ by
      obtain ⟨t, ht, hbooks, hstored⟩ := transferring_ok p.cells h hf rfl rfl
      exact ⟨t, ht, hbooks, blob, hstored⟩
  · exact (blob_leads b h).mono fun t ht ↦ ⟨ht.1, [], ht.2⟩

/-- What is collected in the frames of a group. -/
theorem pieces_lead (pieces : List Piece) (h : Stored s vs blob) :
    Leads step Undisturbed s (pieces.flatMap Piece.frames) fun t ↦
      SameBooks s t ∧ ∃ blob, Stored t (vs ++ pieces.flatMap Piece.values) blob := by
  induction pieces generalizing s vs blob with
  | nil => exact .nil ⟨.refl s, blob, by rwa [List.flatMap_nil, List.append_nil]⟩
  | cons p pieces ih =>
    refine (piece_leads p h).append fun t ⟨hbooks, blob', hstored⟩ ↦
      (ih hstored).mono fun u ⟨hbooks', blob'', hcollected⟩ ↦ ⟨hbooks.trans hbooks', blob'', ?_⟩
    rwa [List.flatMap_cons, ← List.append_assoc]

/-- A segment: what is called is what is to be called. -/
theorem segment_leads (seg : Segment) (h : Ready s) :
    Leads step Undisturbed s seg.frames fun t ↦ Ready t ∧
      Books s t (seg.index s.m_indexRowset) (seg.calls s.m_mapRowset s.m_indexRowset) := by
  rcases seg with ⟨cols, index, outputs, lt⟩ | index | ⟨pieces, last⟩
  · exact .single fun hf ↦ rowsetHeader_ok h hf rfl rfl
  · exact .single fun hf ↦ beginRows_ok h hf rfl rfl
  · obtain ⟨blob, hstored⟩ := h
    refine (pieces_lead pieces hstored).append fun t ⟨hbooks, blob', hcollected⟩ ↦
      .single fun hf ↦ ?_
    obtain ⟨u, hu, hready, hbooks'⟩ := endRows_ok last.cells hcollected hf rfl rfl
    refine ⟨u, hu, hready, hbooks'.1.trans hbooks.1, hbooks'.2.trans hbooks.2, ?_⟩
    rw [hbooks'.calls, hbooks.calls, hbooks.m_mapRowset, hbooks.m_indexRowset]
    rfl

theorem segments_lead (segs : List Segment) (h : Ready s) :
    Leads step Undisturbed s (segs.flatMap Segment.frames) fun t ↦ Ready t ∧
      t.calls = s.calls ++ delivered s.m_mapRowset s.m_indexRowset segs := by
  induction segs generalizing s with
  | nil => exact .nil ⟨h, (List.append_nil _).symm⟩
  | cons seg segs ih =>
    refine (segment_leads seg h).append fun t ⟨hready, hbooks⟩ ↦
      (ih hready).mono fun u ⟨hready', hcalls⟩ ↦ ⟨hready', ?_⟩
    rw [hcalls, hbooks.calls, hbooks.m_mapRowset, hbooks.m_indexRowset, List.append_assoc]
    rfl

/-- A handler that has been tied is ready. -/
theorem tied_ready {m : Arrays} {q : CUQueue} (hq : q.Sound m) (hpos : 0 < q.blockSize)
    (hlt : q.blockSize < 2 ^ 32) (callbacks : List (ℕ × cRowsetHandler)) :
    Ready (.tied m q callbacks) :=
  ⟨q.content m, {
    buffer := ⟨fun _ ha ↦ (by cases ha), fun _ ↦ ⟨rfl, rfl⟩⟩
    m_blob := hq
    block_pos := hpos
    block_lt := hlt
    separate := fun _ ha ↦ by cases ha
    valid := fun _ hw ↦ absurd hw List.not_mem_nil
    apart := fun _ hw ↦ absurd hw List.not_mem_nil
    data := rfl
    content := rfl }⟩

/-- **Within the condition, every group of cells is delivered once**, with the values that were
sent, in order: whatever queue the handler has been given for `m_blob`, the frames of any segments
can be handled, and the callbacks are called with what is to be delivered. -/
theorem rows_delivered {m : Arrays} {q : CUQueue} (hq : q.Sound m) (hpos : 0 < q.blockSize)
    (hlt : q.blockSize < 2 ^ 32) (callbacks : List (ℕ × cRowsetHandler)) (segs : List Segment)
    (hin : Within step Undisturbed (.tied m q callbacks) (segs.flatMap Segment.frames)) :
    ∃ t, run step (.tied m q callbacks) (segs.flatMap Segment.frames) = some t ∧
      t.calls = delivered callbacks 0 segs := by
  obtain ⟨t, ht, _, hcalls⟩ := segments_lead segs (tied_ready hq hpos hlt callbacks) hin
  exact ⟨t, ht, hcalls⟩

end Runs

/-! ### Rows with large cells -/

/-- A value that `SaveObject` accepts, as a cell. -/
def Cell.ofValue (x : Value) (bytes : List UInt8) (h : SaveObject x = some bytes)
    (hx : ∀ vs, x ≠ .interfaces vs) (hlen : bytes.length < LIMIT) : Cell where
  bytes := bytes
  value := loaded x
  decodes := LoadObject_decodes h hx hlen

/-- What is written of bytes whose number has 32 bits. -/
theorem saveBytes_eq {data : List UInt8} (h : data.length < 2 ^ 32) :
    SaveUShort Vbytes ++ SaveAString data =
      SaveUShort Vbytes ++ (leBytes 4 data.length ++ data) := by
  rw [saveAString_eq, rereadAStr, Nat.mod_eq_of_lt h, List.take_length]

/-- A `[]byte` that is sent with its tag and its length first, and then in one piece. -/
def Blob.ofBytes (data : List UInt8) (expected : UInt32) (h : data.length + 6 < 2 ^ 32) : Blob where
  cell := .ofValue (.bytes data) (SaveUShort Vbytes ++ SaveAString data) rfl (fun _ h ↦ by cases h)
    (by
      rw [saveBytes_eq (by omega), SaveUShort, List.length_append, List.length_append,
        length_leBytes, length_leBytes]
      show 2 + (4 + data.length) < 2 ^ 32
      omega)
  tag := leBytes 2 Vbytes
  data := data
  tag_length := length_leBytes 2 _
  large := saveBytes_eq (by omega)
  length := data.length
  length_lt := by omega
  known := .inl rfl
  expected := expected
  head := leBytes 2 Vbytes ++ leBytes 4 data.length
  chunks := []
  last := ⟨data, by omega⟩
  head_lt := by
    simp only [List.length_append, length_leBytes]
    decide
  cut := by rw [List.flatMap_nil, List.nil_append, List.append_assoc]

/-- One column, with a name. -/
def nameColumn : CDBColumnInfo := ⟨[], [], [110], [110], [], [], 0, 0, 0x2011, 0, 0⟩

/-- A row with two large cells of three bytes; the second is announced as large as `expected`. -/
def twoBlobs (expected : UInt32) : List Segment :=
  [.header ⟨saveColumnInfoArray [nameColumn], _, loadColumnInfoArray_decodes (by decide)⟩ 1 none
      (by decide),
    .begin none,
    .rows [.blob (.ofBytes [1, 1, 1] 20 (by decide)), .blob (.ofBytes [2, 2, 2] expected (by decide))]
      ⟨[], by decide⟩]

theorem makeBuffer_sound (m : Arrays) : (MakeBuffer m).2.Sound (MakeBuffer m).1 :=
  sound_fresh m ⟨none, 0, 0, 4096⟩ (by decide)

/-- The second large cell gets an array of its own if it is announced larger than the first one's. -/
theorem rows_delivered_twoBlobs :
    ∃ t, run step (.tied (MakeBuffer []).1 (MakeBuffer []).2 [(1, ⟨true, true⟩)])
        ((twoBlobs 5000).flatMap Segment.frames) = some t ∧
      t.calls = delivered [(1, ⟨true, true⟩)] 0 (twoBlobs 5000) :=
  rows_delivered (makeBuffer_sound []) (by decide) (by decide) [(1, ⟨true, true⟩)] (twoBlobs 5000)
    (by decide +kernel)

/-- The bytes of the slices among the values a callback is called with. -/
def Call.slices : Call → List (List UInt8)
  | header _ => []
  | rows _ _ vData => vData.filterMap fun
    | .bytesPtr s => s
    | _ => none

/-- **The callback does not always get what was sent**: of two cells of three bytes each, the first
shows the bytes of the second. -/
theorem not_rows_delivered :
    ¬ ∀ (m : Arrays) (q : CUQueue) (callbacks : List (ℕ × cRowsetHandler)) (segs : List Segment),
      q.Sound m → 0 < q.blockSize → q.blockSize < 2 ^ 32 →
      ∃ t, run step (.tied m q callbacks) (segs.flatMap Segment.frames) = some t ∧
        t.calls = delivered callbacks 0 segs := by
  intro h
  obtain ⟨t, ht, hcalls⟩ := h (MakeBuffer []).1 (MakeBuffer []).2 [(1, ⟨true, true⟩)] (twoBlobs 20)
    (makeBuffer_sound []) (by decide) (by decide)
  have hrun : (run step (.tied (MakeBuffer []).1 (MakeBuffer []).2 [(1, ⟨true, true⟩)])
      ((twoBlobs 20).flatMap Segment.frames)).map (fun t ↦ t.calls.map Call.slices) =
        some [[], [[2, 2, 2], [2, 2, 2]]] := by decide +kernel
  have hsent : (delivered [(1, ⟨true, true⟩)] 0 (twoBlobs 20)).map Call.slices =
      [[], [[1, 1, 1], [2, 2, 2]]] := by decide +kernel
  rw [ht, Option.map_some, hcalls, hsent] at hrun
  exact absurd hrun (by decide)

end SocketPro.Go.Slices
