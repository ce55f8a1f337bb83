import SocketPro.Go.DBHandler

/-!
# What is stored between frames

The handler collects the cells of a group over many frames. A cell that is a slice shows what its
array holds when it is looked at, and both arrays are written again for the next frame.

**The condition.** `Undisturbed` is about one frame and the state before it: neither the copy of the
frame into the buffer nor what is appended to `m_blob` is written over a slice that a cell of
`m_vData` refers to, and `m_blob` does not need an array of 2^32 bytes.

**The invariant.** `Stored`: the two queues own different arrays, the cells refer to bytes that are
not in `m_blob`, and show the values that were sent. It is kept by the copy of a frame
(`receive_ok`), by what is appended to `m_blob` (`pushBlob_ok`), by setting a length there
(`resetLength_ok`) and by the loop that collects small cells (`loadAll_ok`).
-/

namespace SocketPro.Go.Slices

open Bytes Machine CUQueue

/-- The slices that the cells of `m_vData` refer to. -/
def CDBHandler.views (s : CDBHandler) : List View := s.m_vData.flatMap Object.views

/-! ### The condition -/

/-- The length `StartBLOB` announces. -/
def announced (body : Body) : ℕ := ofLE (body.1.take 4)

/-- `m_blob` as it is when the bytes of a frame are appended to it. -/
def blobFor (s : CDBHandler) (f : Frame) : Arrays × CUQueue :=
  match f.reqId with
  | .StartBLOB => reserved s.arrays (s.m_blob.SetSize s.arrays 0) (announced f.body)
  | _ => (s.arrays, s.m_blob)

/-- How many bytes of a frame are appended to `m_blob`. -/
def pushed (f : Frame) : ℕ :=
  match f.reqId with
  | .StartBLOB => f.body.1.length - 4
  | .Chunk | .EndBLOB => f.body.1.length
  | _ => 0

/-- The copy of a frame into the buffer is not written over the slice. -/
def ReceivedApart (s : CDBHandler) (n : ℕ) (w : View) : Prop :=
  n ≤ s.buffer.GetMaxSize s.arrays → ∀ a ∈ s.buffer.buffer, w.Apart a 0 n

instance (s : CDBHandler) (n : ℕ) (w : View) : Decidable (ReceivedApart s n w) := by
  unfold ReceivedApart
  infer_instance

/-- A frame that is not written over a slice of a cell, and that the 32-bit sizes have room for. -/
structure Undisturbed (s : CDBHandler) (f : Frame) : Prop where
  buffer : ∀ w ∈ s.views, ReceivedApart s f.body.1.length w
  blob : ∀ w ∈ s.views, (blobFor s f).2.PushApart (blobFor s f).1 (pushed f) w
  fits : (blobFor s f).2.Fits (blobFor s f).1 (pushed f)

instance (s : CDBHandler) (f : Frame) : Decidable (Undisturbed s f) :=
  decidable_of_iff ((∀ w ∈ s.views, ReceivedApart s f.body.1.length w) ∧
    (∀ w ∈ s.views, (blobFor s f).2.PushApart (blobFor s f).1 (pushed f) w) ∧
    (blobFor s f).2.Fits (blobFor s f).1 (pushed f))
    ⟨fun h ↦ ⟨h.1, h.2.1, h.2.2⟩, fun h ↦ ⟨h.buffer, h.blob, h.fits⟩⟩

/-! ### The invariant -/

/-- What is stored between frames: the values `vs` of the cells and the content of `m_blob`. -/
structure Stored (s : CDBHandler) (vs : List Value) (blob : List UInt8) : Prop where
  buffer : s.buffer.Sound s.arrays
  m_blob : s.m_blob.Sound s.arrays
  block_pos : 0 < s.m_blob.blockSize
  block_lt : s.m_blob.blockSize < 2 ^ 32
  separate : ∀ a, s.buffer.buffer = some a → s.m_blob.buffer ≠ some a
  valid : ∀ w ∈ s.views, w.Valid s.arrays
  apart : ∀ w ∈ s.views, ∀ a, s.m_blob.buffer = some a → w.Apart a s.m_blob.headPos s.m_blob.len
  data : s.m_vData.map (Object.value s.arrays) = vs
  content : s.m_blob.content s.arrays = blob

/-- What no frame in the middle of a group changes. -/
structure SameBooks (s t : CDBHandler) : Prop where
  m_indexRowset : t.m_indexRowset = s.m_indexRowset
  m_mapRowset : t.m_mapRowset = s.m_mapRowset
  calls : t.calls = s.calls

theorem SameBooks.refl (s : CDBHandler) : SameBooks s s := ⟨rfl, rfl, rfl⟩

theorem SameBooks.trans {s t u : CDBHandler} (h : SameBooks s t) (h' : SameBooks t u) :
    SameBooks s u :=
  ⟨h'.1.trans h.1, h'.2.trans h.2, h'.3.trans h.3⟩

namespace Stored

variable {s : CDBHandler} {vs : List Value} {blob : List UInt8}

theorem views_of_mem {o : Object} {w : View} (ho : o ∈ s.m_vData) (hw : w ∈ o.views) :
    w ∈ s.views := List.mem_flatMap.2 ⟨o, ho, hw⟩

/-- The cells show the same where the slices do. -/
theorem data_congr {m : Arrays} (h : ∀ w ∈ s.views, m.read w = s.arrays.read w) :
    s.m_vData.map (Object.value m) = s.m_vData.map (Object.value s.arrays) :=
  List.map_congr_left fun _ ho ↦ Object.value_congr fun w hw ↦ h w (views_of_mem ho hw)

/-- **What keeps the invariant.** The arrays grow, what the cells and `m_blob` show stays, and the
buffer is another one. -/
theorem of_reads (h : Stored s vs blob) {m : Arrays} {q : CUQueue} (hm : s.arrays.Grows m)
    (hviews : ∀ w ∈ s.views, m.read w = s.arrays.read w)
    (hblob : ∀ w, s.m_blob.slice? = some w → m.read w = s.arrays.read w) (hq : q.Sound m)
    (hseparate : ∀ a, q.buffer = some a → s.m_blob.buffer ≠ some a) :
    Stored { s with arrays := m, buffer := q } vs blob where
  buffer := hq
  m_blob := h.m_blob.of_grows hm
  block_pos := h.block_pos
  block_lt := h.block_lt
  separate := hseparate
  valid w hw := hm.valid (h.valid w hw)
  apart := h.apart
  data := (data_congr hviews).trans h.data
  content := (content_congr hblob).trans h.content

/-- Another buffer over the same array. -/
theorem of_buffer (h : Stored s vs blob) {q : CUQueue} (hq : q.Sound s.arrays)
    (hbuffer : q.buffer = s.buffer.buffer) : Stored { s with buffer := q } vs blob :=
  h.of_reads (.refl _) (fun _ _ ↦ rfl) (fun _ _ ↦ rfl) hq fun a ha ↦
    h.separate a (hbuffer ▸ ha)

/-- The books of the handler do not matter. -/
theorem of_books (h : Stored s vs blob) {t : CDBHandler} (harrays : t.arrays = s.arrays)
    (hbuffer : t.buffer = s.buffer) (hblob : t.m_blob = s.m_blob) (hdata : t.m_vData = s.m_vData) :
    Stored t vs blob := by
  obtain ⟨m, q, b, index, callbacks, cols, data, calls⟩ := t
  cases harrays
  cases hbuffer
  cases hblob
  cases hdata
  exact ⟨h.1, h.2, h.3, h.4, h.5, h.6, h.7, h.8, h.9⟩

/-- `m_blob` is emptied. -/
theorem emptied (h : Stored s vs blob) :
    Stored { s with m_blob := s.m_blob.emptied } vs [] where
  buffer := h.buffer
  m_blob := h.m_blob.emptied
  block_pos := h.block_pos
  block_lt := h.block_lt
  separate := h.separate
  valid := h.valid
  apart _ _ _ _ := .inr (.inr (.inl rfl))
  data := h.data
  content := content_emptied _ _

/-- The cells are given up. -/
theorem cleared (h : Stored s vs blob) : Stored { s with m_vData := [] } [] blob where
  buffer := h.buffer
  m_blob := h.m_blob
  block_pos := h.block_pos
  block_lt := h.block_lt
  separate := h.separate
  valid _ hw := absurd hw List.not_mem_nil
  apart _ hw := absurd hw List.not_mem_nil
  data := rfl
  content := h.content

/-- A cell is added that refers to an array in which `m_blob` has nothing. -/
theorem append (h : Stored s vs blob) {o : Object} {v : Value} (hvalue : o.value s.arrays = v)
    (hviews : ∀ w ∈ o.views, w.Valid s.arrays ∧
      ∀ a, s.m_blob.buffer = some a → w.Apart a s.m_blob.headPos s.m_blob.len) :
    Stored { s with m_vData := s.m_vData ++ [o] } (vs ++ [v]) blob := by
  have hmem : ∀ w ∈ CDBHandler.views { s with m_vData := s.m_vData ++ [o] },
      w ∈ s.views ∨ w ∈ o.views := fun w hw ↦ by
    rwa [CDBHandler.views, List.flatMap_append, List.mem_append, List.flatMap_singleton] at hw
  refine ⟨h.buffer, h.m_blob, h.block_pos, h.block_lt, h.separate, fun w hw ↦ ?_,
    fun w hw ↦ ?_, ?_, h.content⟩
  · rcases hmem w hw with hold | hnew
    · exact h.valid w hold
    · exact (hviews w hnew).1
  · rcases hmem w hw with hold | hnew
    · exact h.apart w hold
    · exact (hviews w hnew).2
  · show (s.m_vData ++ [o]).map (Object.value s.arrays) = vs ++ [v]
    rw [List.map_append, h.data, List.map_singleton, hvalue]

end Stored

/-! ### Receiving -/

section Receiving

variable {s : CDBHandler} {vs : List Value} {blob : List UInt8}

theorem emptyBuffer_ok (s : CDBHandler) :
    emptyBuffer s = .ok () { s with buffer := s.buffer.emptied } := by
  rw [emptyBuffer, update, setSize_zero]

theorem emptyBlob_ok (s : CDBHandler) :
    emptyBlob s = .ok () { s with m_blob := s.m_blob.emptied } := by
  rw [emptyBlob, update, setSize_zero]

/-- The array a frame is copied to: the one that is there, in which no cell is written over, or a
new one. -/
theorem makeRoom_ok (h : Stored s vs blob) {n : ℕ} (hn : n ≠ 0) (hlt : n < 2 ^ 32)
    (hapart : ∀ w ∈ s.views, ReceivedApart s n w) :
    ∃ m a, makeRoom n { s with buffer := s.buffer.emptied } =
        .ok () { s with arrays := m, buffer := { s.buffer.emptied with buffer := some a } } ∧
      s.arrays.Grows m ∧ a < m.length ∧ n ≤ (m.elements a).length ∧
      (m.elements a).length < 2 ^ 32 ∧
      (∀ w : View, w.array < s.arrays.length → m.read w = s.arrays.read w) ∧
      (∀ w ∈ s.views, w.Apart a 0 n) ∧ s.m_blob.buffer ≠ some a := by
  rcases Nat.lt_or_ge (s.buffer.GetMaxSize s.arrays) n with hless | henough
  · have hroom : makeRoom n { s with buffer := s.buffer.emptied } =
        .ok () { s with
          arrays := s.arrays.alloc (zeros n),
          buffer := { s.buffer.emptied with buffer := some s.arrays.length } } := by
      have hless' : s.buffer.emptied.GetMaxSize s.arrays < n := hless
      rw [makeRoom, update]
      simp only [if_pos hless', realloc_emptied _ _ hn]
    refine ⟨_, _, hroom, .alloc _ _, ?_, ?_, ?_, fun w hw ↦ Store.read_alloc hw, fun w hw ↦ ?_, ?_⟩
    · rw [Store.length_alloc]
      exact Nat.lt_succ_self _
    · rw [Store.elements_alloc_self, zeros, List.length_replicate]
    · rwa [Store.elements_alloc_self, zeros, List.length_replicate]
    · exact .inl (Nat.ne_of_lt (h.valid w hw).1)
    · intro hblob
      exact Nat.lt_irrefl _ (h.m_blob.array _ hblob).1
  · obtain ⟨a, ha⟩ : ∃ a, s.buffer.buffer = some a := by
      rcases hbuffer : s.buffer.buffer with - | a
      · rw [GetMaxSize, hbuffer] at henough
        exact absurd (Nat.le_zero.1 henough) hn
      · exact ⟨a, rfl⟩
    have hmax : s.buffer.GetMaxSize s.arrays = (s.arrays.elements a).length := by
      rw [GetMaxSize, ha]
    have hsame : { s.buffer.emptied with buffer := some a } = s.buffer.emptied := by
      rw [← ha]
      rfl
    refine ⟨s.arrays, a, ?_, .refl _, (h.buffer.array a ha).1, hmax ▸ henough,
      (h.buffer.array a ha).2.2, fun _ _ ↦ rfl, fun w hw ↦ hapart w hw henough a ha,
      h.separate a ha⟩
    have henough' : ¬ s.buffer.emptied.GetMaxSize s.arrays < n := Nat.not_lt.2 henough
    rw [makeRoom, update, hsame]
    simp only [if_neg henough']

/-- **A frame is received**, and the cells show what they showed. -/
theorem receive_ok (h : Stored s vs blob) (body : Body)
    (hapart : ∀ w ∈ s.views, ReceivedApart s body.1.length w) :
    ∃ t, receive body s = .ok () t ∧ Stored t vs blob ∧ t.buffer.content t.arrays = body.1 ∧
      s.arrays.Grows t.arrays ∧ t.m_blob = s.m_blob ∧ t.m_vData = s.m_vData ∧ SameBooks s t := by
  rw [receive, Effect.bind_ok (emptyBuffer_ok s)]
  by_cases hbody : body.1 = []
  · refine ⟨{ s with buffer := s.buffer.emptied }, ?_, h.of_buffer h.buffer.emptied rfl, ?_,
      .refl _, rfl, rfl, ⟨rfl, rfl, rfl⟩⟩
    · rw [if_pos hbody]
      rfl
    · rw [hbody]
      exact content_emptied _ _
  · have hn : body.1.length ≠ 0 := fun h0 ↦ hbody (List.length_eq_zero_iff.1 h0)
    obtain ⟨m, a, hroom, hgrows, halt, hlen, hbound, hframe, hviews, hblob⟩ :=
      makeRoom_ok h hn body.2 hapart
    have hfit : 0 + body.1.length ≤ (m.elements a).length := by rwa [Nat.zero_add]
    have hwrite : m.Grows (m.write a 0 body.1) := .write hfit
    have hcopy : copyIn body.1
        { s with arrays := m, buffer := { s.buffer.emptied with buffer := some a } } =
          .ok () { s with
            arrays := m.write a 0 body.1,
            buffer := { s.buffer.emptied with buffer := some a } } := by
      have hne : ¬ (m.elements a).length = 0 := by omega
      have hpointer : pointer m { s.buffer.emptied with buffer := some a } 0 = some (a, 0) := by
        simp only [pointer, if_neg hne]
        exact if_pos rfl
      rw [copyIn, poke]
      simp only [hpointer, if_pos hfit]
    have hsize : CUQueue.SetSize (m.write a 0 body.1)
        { s.buffer.emptied with buffer := some a } body.1.length =
          ⟨some a, body.1.length, 0, s.buffer.blockSize⟩ := by
      have hmost : sub32 ((m.write a 0 body.1).elements a).length 0 = (m.elements a).length := by
        rw [Store.length_elements_write hfit, sub32_of_le (Nat.zero_le _) hbound, Nat.sub_zero]
      have hle : ¬ (m.elements a).length < body.1.length := Nat.not_lt.2 hlen
      simp only [SetSize, emptied, hmost, if_neg hle, if_neg hn]
    have hsound : CUQueue.Sound (m.write a 0 body.1)
        ⟨some a, body.1.length, 0, s.buffer.blockSize⟩ := by
      refine ⟨fun b hb ↦ ?_, fun hnone ↦ by simp at hnone⟩
      obtain rfl : a = b := Option.some.inj hb
      rw [Store.length_write, Store.length_elements_write hfit]
      exact ⟨halt, hfit, hbound⟩
    refine ⟨{ s with arrays := m.write a 0 body.1,
                     buffer := ⟨some a, body.1.length, 0, s.buffer.blockSize⟩ }, ?_, ?_, ?_,
      hgrows.trans hwrite, rfl, rfl, ⟨rfl, rfl, rfl⟩⟩
    · rw [if_neg hbody, Effect.bind_ok hroom, Effect.bind_ok hcopy, update, hsize]
    · refine h.of_reads (hgrows.trans hwrite) (fun w hw ↦ ?_) (fun w hw ↦ ?_) hsound fun b hb ↦ ?_
      · rw [Store.read_write_apart (hviews w hw) halt (Nat.zero_le _), hframe w (h.valid w hw).1]
      · obtain ⟨b, hb, rfl⟩ := Option.map_eq_some_iff.1 hw
        have hother : b ≠ a := fun heq ↦ hblob (heq ▸ hb)
        rw [Store.read_write_apart (.inl hother) halt (Nat.zero_le _),
          hframe _ (h.m_blob.array b hb).1]
      · obtain rfl : a = b := Option.some.inj hb
        exact hblob
    · exact Store.read_write_self halt hfit

end Receiving

/-! ### Collecting -/

section Collecting

variable {s : CDBHandler} {vs : List Value} {blob : List UInt8}

/-- What a part of the handler does that leaves everything but the queues and the cells. -/
def Collects (x : Handle Unit) (s : CDBHandler) (Q : CDBHandler → Prop) : Prop :=
  ∃ t, x s = .ok () t ∧ SameBooks s t ∧ Q t

/-- **`m_blob` gets what is in the buffer.** -/
theorem pushBlob_ok (h : Stored s vs blob) {bytes : List UInt8}
    (hbytes : s.buffer.content s.arrays = bytes)
    (hapart : ∀ w ∈ s.views, s.m_blob.PushApart s.arrays bytes.length w)
    (hfits : s.m_blob.Fits s.arrays bytes.length) :
    Collects pushBlob s fun t ↦ Stored t vs (blob ++ bytes) := by
  have hshort : bytes.length < 2 ^ 32 := by
    rw [← hbytes, h.buffer.length_content]
    exact h.buffer.len_lt
  obtain ⟨m, a, hpush, hgrows, hsound, hread, hframe, hwhich⟩ :=
    pushBytes_ok h.m_blob h.block_pos h.block_lt hshort hfits
  have hbuffer : (if s.buffer.GetSize = 0 then s.buffer else s.buffer.emptied).Sound m := by
    split
    · exact h.buffer.of_grows hgrows
    · exact h.buffer.emptied.of_grows hgrows
  have harray : (if s.buffer.GetSize = 0 then s.buffer else s.buffer.emptied).buffer =
      s.buffer.buffer := by
    split <;> rfl
  refine ⟨{ s with
      arrays := m,
      m_blob := { s.m_blob with buffer := some a, len := s.m_blob.len + bytes.length },
      buffer := if s.buffer.GetSize = 0 then s.buffer else s.buffer.emptied }, ?_,
    ⟨rfl, rfl, rfl⟩, ?_⟩
  · rw [pushBlob, hbytes, hpush]
  · refine ⟨hbuffer, hsound, h.block_pos, h.block_lt, fun b hb hab ↦ ?_,
      fun w hw ↦ hgrows.valid (h.valid w hw), fun w hw b hb ↦ ?_, ?_, ?_⟩
    · obtain rfl : a = b := Option.some.inj hab
      rw [harray] at hb
      rcases hwhich with ⟨hsame, _⟩ | hfresh
      · exact h.separate a hb hsame
      · exact Nat.not_lt.2 hfresh (h.buffer.array a hb).1
    · obtain rfl : a = b := Option.some.inj hb
      rcases hwhich with ⟨hsame, hidle⟩ | hfresh
      · exact (h.apart w hw a hsame).append (hapart w hw a hsame hidle)
      · exact .inl (Nat.ne_of_lt (Nat.lt_of_lt_of_le (h.valid w hw).1 hfresh))
    · exact (Stored.data_congr fun w hw ↦
        hframe w (h.valid w hw).1 (hapart w hw)).trans h.data
    · show m.read ⟨a, s.m_blob.headPos, s.m_blob.len + bytes.length⟩ = blob ++ bytes
      rw [hread, h.content]

/-- **The length of a large cell is set** where it was not known. -/
theorem resetLength_ok {tag data : List UInt8} {length : ℕ} (htag : tag.length = 2)
    (hlength : length < 2 ^ 32) (hknown : length = data.length ∨ BLOB_LENGTH_NOT_AVAILABLE ≤ length)
    (h : Stored s vs (tag ++ (leBytes 4 length ++ data))) :
    Collects resetLength s fun t ↦ Stored t vs (tag ++ (leBytes 4 data.length ++ data)) := by
  have hlen : s.m_blob.len = 6 + data.length := by
    rw [← h.m_blob.length_content, h.content, List.length_append, List.length_append,
      length_leBytes, htag]
    omega
  obtain ⟨a, ha⟩ : ∃ a, s.m_blob.buffer = some a := by
    rcases hbuffer : s.m_blob.buffer with - | a
    · exact absurd (h.m_blob.none hbuffer).2 (by omega)
    · exact ⟨a, rfl⟩
  obtain ⟨halt, hle, hbound⟩ := h.m_blob.array a ha
  have hpointer : pointer s.arrays s.m_blob 2 = some (a, s.m_blob.headPos + 2) := by
    have hne : ¬ (s.arrays.elements a).length = 0 := by omega
    have hlen0 : ¬ s.m_blob.len = 0 := by omega
    have hlen2 : ¬ s.m_blob.len ≤ 2 := by omega
    rw [pointer, ha]
    simp only [if_neg hne, if_neg hlen0, if_neg hlen2]
  have hfit : s.m_blob.headPos + 2 + 4 ≤ (s.arrays.elements a).length := by omega
  have hcontent : s.arrays.read ⟨a, s.m_blob.headPos, s.m_blob.len⟩ =
      tag ++ (leBytes 4 length ++ data) := by
    rw [← h.content, content, ha]
  have hpeek : peekUInt s.arrays s.m_blob 2 = some length := by
    have hpart := s.arrays.read_part a s.m_blob.headPos (n := s.m_blob.len) (i := 2) (k := 4)
      (by omega)
    rw [hcontent, List.drop_left' htag, List.take_left' (length_leBytes 4 _)] at hpart
    have hvalue : ofLE (leBytes 4 length) = length := ofLE_leBytes_of_lt hlength
    rw [peekUInt, hpointer]
    simp only [if_pos hfit, hpart, hvalue]
  by_cases hreset : BLOB_LENGTH_NOT_AVAILABLE ≤ length
  · have hsize : sub32 s.m_blob.GetSize 6 = data.length := by
      have hget : s.m_blob.GetSize = 6 + data.length := by
        rw [GetSize, ha, if_neg (by simp), hlen]
      rw [hget, sub32_of_le (by omega) (by omega), Nat.add_sub_cancel_left]
    have hfit' : s.m_blob.headPos + 2 + (leBytes 4 data.length).length ≤
        (s.arrays.elements a).length := by rwa [length_leBytes]
    have hgrows : s.arrays.Grows
        (s.arrays.write a (s.m_blob.headPos + 2) (leBytes 4 data.length)) := .write hfit'
    have hviews : ∀ w ∈ s.views,
        (s.arrays.write a (s.m_blob.headPos + 2) (leBytes 4 data.length)).read w =
          s.arrays.read w := fun w hw ↦ by
      refine Store.read_write_apart ?_ halt (by omega)
      rw [length_leBytes]
      exact (h.apart w hw a ha).mono (by omega) (by omega)
    have hsound := h.m_blob.of_grows hgrows
    refine ⟨{ s with
      arrays := s.arrays.write a (s.m_blob.headPos + 2) (leBytes 4 data.length) }, ?_,
      ⟨rfl, rfl, rfl⟩, h.buffer.of_grows hgrows, hsound, h.block_pos, h.block_lt, h.separate,
      fun w hw ↦ hgrows.valid (h.valid w hw), h.apart, (Stored.data_congr hviews).trans h.data, ?_⟩
    · rw [resetLength, hpeek]
      simp only [if_pos hreset, hsize, poke, hpointer, if_pos hfit']
    · have hinside : 2 + (leBytes 4 data.length).length ≤ s.m_blob.len := by
        rw [length_leBytes]
        omega
      have hbehind : (tag ++ (leBytes 4 length ++ data)).drop (2 + 4) = data := by
        rw [← List.drop_drop, List.drop_left' htag, List.drop_left' (length_leBytes 4 _)]
      show content _ s.m_blob = _
      rw [content, ha]
      show Store.read _ ⟨a, s.m_blob.headPos, s.m_blob.len⟩ = _
      rw [Store.read_write_inside halt hinside hle, hcontent, Block.overwrite, List.take_left' htag,
        length_leBytes, hbehind, List.append_assoc]
  · obtain rfl : length = data.length := hknown.resolve_right hreset
    refine ⟨s, ?_, .refl s, h⟩
    rw [resetLength, hpeek]
    simp only [if_neg hreset]

/-- Bytes that a reader makes a value of, wherever they stand. -/
structure Encoded {α : Type} (x : Reader α) where
  bytes : List UInt8
  value : α
  decodes : Decodes LIMIT x bytes value

/-- A cell. -/
abbrev Cell := Encoded Go.LoadObject

/-- A cell has a tag. -/
theorem Cell.length_pos (c : Cell) : 0 < c.bytes.length := by
  have hread := c.decodes []
  rcases Nat.eq_zero_or_pos c.bytes.length with hzero | hpos
  · rw [List.length_eq_zero_iff.1 hzero] at hread
    cases hread (by decide)
  · exact hpos

theorem appendData_ok (s : CDBHandler) (o : Object) :
    appendData o s = .ok () { s with m_vData := s.m_vData ++ [o] } := rfl

/-- **The loop collects the cells of a frame.** -/
theorem loadRows_ok {cells : List Cell} {fuel : ℕ} (hfuel : cells.length ≤ fuel)
    (h : Stored s vs blob) (hbytes : s.buffer.content s.arrays = cells.flatMap Encoded.bytes) :
    Collects (loadRows fuel) s fun t ↦ Stored t (vs ++ cells.map Encoded.value) blob := by
  induction cells generalizing s vs fuel with
  | nil =>
    have hsize : s.buffer.GetSize = 0 := by
      rw [h.buffer.getSize, hbytes]
      rfl
    refine ⟨s, ?_, .refl s, ?_⟩
    · cases fuel <;> exact if_pos hsize
    · rwa [List.map_nil, List.append_nil]
  | cons c cells ih =>
    obtain ⟨fuel, rfl⟩ : ∃ n, fuel = n + 1 := Nat.exists_eq_succ_of_ne_zero (by
      rw [List.length_cons] at hfuel
      omega)
    have hpos := c.length_pos
    have hsize : ¬ s.buffer.GetSize = 0 := by
      rw [h.buffer.getSize, hbytes, List.flatMap_cons, List.length_append]
      omega
    obtain ⟨o, ho, hrest, hvalue, hviews⟩ := loadObject_ok h.buffer c.decodes hbytes
    have hread : onBuffer CUQueue.LoadObject s =
        .ok o { s with buffer := s.buffer.advance c.bytes.length } := by
      rw [onBuffer, ho]
    have hstored : Stored { s with buffer := s.buffer.advance c.bytes.length,
                                   m_vData := s.m_vData ++ [o] } (vs ++ [c.value]) blob :=
      (h.of_buffer (h.buffer.advance _) rfl).append hvalue fun w hw ↦
        ⟨(hviews w hw).1, fun b hb ↦ .inl fun heq ↦
          h.separate b (heq ▸ (hviews w hw).2) hb⟩
    obtain ⟨t, ht, hbooks, hcollected⟩ := ih (Nat.le_of_succ_le_succ hfuel) hstored hrest
    refine ⟨t, ?_, ⟨hbooks.1, hbooks.2, hbooks.3⟩, ?_⟩
    · rw [loadRows]
      simp only [if_neg hsize]
      rw [Effect.bind_ok hread, Effect.bind_ok (appendData_ok _ o), ht]
    · rwa [List.append_assoc] at hcollected

theorem length_le_flatMap_bytes (cells : List Cell) :
    cells.length ≤ (cells.flatMap Encoded.bytes).length := by
  induction cells with
  | nil => exact Nat.zero_le _
  | cons c cells ih =>
    have hpos := c.length_pos
    rw [List.flatMap_cons, List.length_append, List.length_cons]
    omega

theorem loadAll_ok {cells : List Cell} (h : Stored s vs blob)
    (hbytes : s.buffer.content s.arrays = cells.flatMap Encoded.bytes) :
    Collects loadAll s fun t ↦ Stored t (vs ++ cells.map Encoded.value) blob := by
  have hsize : s.buffer.GetSize = (cells.flatMap Encoded.bytes).length := by
    rw [h.buffer.getSize, hbytes]
  obtain ⟨t, ht, hcollected⟩ := loadRows_ok (length_le_flatMap_bytes cells) h hbytes
  refine ⟨t, ?_, hcollected⟩
  rw [loadAll, hsize, ht]

end Collecting

end SocketPro.Go.Slices
