import Mathlib.Data.List.Basic

/-!
# Sequences of cells in frames

A sender puts cells of any kind into frames. Small cells are packed into row frames, as many as
there is room for, and the first row frame is an opening one. A large cell is cut into a blob: a
start frame, chunks and a finishing frame, which together carry what is announced of the cell and
its encoding.

`Framed F frames items` says that the frames carry the items in their order, where an item is a cell
with what is sent for it, whatever this is. `Delivers` asks for the right thing. A sender that works
through its cells keeps `Streamed`.

**What the frames show.** The blobs can be read off the frames (`Framed.blobs_eq`), so that a sender
who sends other bytes for a cell does not deliver it. A receiver who can decode one cell from the
front of a list rebuilds what is delivered (`Delivers.rebuild`).
-/

namespace Framing

variable {α β : Type}

/-- What a frame is for. -/
inductive Tag
  | opening
  | rows
  | start
  | chunk
  | finish
deriving DecidableEq, Repr

structure Frame (β : Type) where
  tag : Tag
  payload : List β
deriving DecidableEq, Repr

/-- How cells are written: the encoding, what is announced of a large cell ahead of it, and which
cells are large. -/
structure Format (α β : Type) where
  encode : α → List β
  announce : α → List β
  width : ℕ
  large : α → Bool
  encode_ne_nil : ∀ a, encode a ≠ []
  length_announce : ∀ a, (announce a).length = width

/-- Cells in one row frame, or a cell cut into a blob. -/
inductive Segment (α β : Type)
  | pack (cells : List α)
  | blob (cell : α) (head : List β) (chunks : List (List β)) (last : List β)

/-- The frames of a blob. -/
def blobFrames (head : List β) (chunks : List (List β)) (last : List β) : List (Frame β) :=
  ⟨.start, head⟩ :: (chunks.map (Frame.mk .chunk) ++ [⟨.finish, last⟩])

namespace Segment

variable (F : Format α β)

/-- The frames of a segment that is not the first one. -/
def frames : Segment α β → List (Frame β)
  | pack cells => [⟨.rows, cells.flatMap F.encode⟩]
  | blob _ head chunks last => blobFrames head chunks last

/-- The cells of a segment, with what is sent for them. -/
def items : Segment α β → List (α × List β)
  | pack cells => cells.map fun a ↦ (a, F.encode a)
  | blob a head chunks last => [(a, head ++ chunks.flatten ++ last)]

/-- Small cells are packed and large ones cut, the announcement being in one piece. -/
inductive Sound : Segment α β → Prop
  | pack {cells : List α} : (∀ a ∈ cells, F.large a = false) → Sound (.pack cells)
  | blob {a : α} {head last : List β} {chunks : List (List β)} :
      F.large a = true → F.width ≤ head.length → Sound (.blob a head chunks last)

end Segment

/-- One opening frame with the cells `first`, and segments. -/
def Framed (F : Format α β) (frames : List (Frame β)) (items : List (α × List β)) : Prop :=
  ∃ (first : List α) (segments : List (Segment α β)),
    frames = ⟨.opening, first.flatMap F.encode⟩ :: segments.flatMap (Segment.frames F) ∧
    items = first.map (fun a ↦ (a, F.encode a)) ++ segments.flatMap (Segment.items F) ∧
    (Segment.pack first).Sound F ∧ ∀ seg ∈ segments, seg.Sound F

/-- What is to be sent for a cell. -/
def Format.item (F : Format α β) (a : α) : α × List β :=
  (a, if F.large a = true then F.announce a ++ F.encode a else F.encode a)

/-- **The frames deliver the cells**: small ones whole in the row frames, large ones with their
announcement in blobs, and nothing else. -/
def Delivers (F : Format α β) (frames : List (Frame β)) (cells : List α) : Prop :=
  Framed F frames (cells.map F.item)

variable {F : Format α β}

/-- One more segment. -/
theorem Framed.append {frames : List (Frame β)} {items : List (α × List β)} {seg : Segment α β}
    (h : Framed F frames items) (hseg : seg.Sound F) :
    Framed F (frames ++ seg.frames F) (items ++ seg.items F) := by
  obtain ⟨first, segments, rfl, rfl, hfirst, hsegments⟩ := h
  refine ⟨first, segments ++ [seg], ?_, ?_, hfirst, fun s hs ↦ ?_⟩
  · rw [List.flatMap_append, List.flatMap_singleton, List.cons_append]
  · rw [List.flatMap_append, List.flatMap_singleton, List.append_assoc]
  · rcases List.mem_append.1 hs with hs | hs
    · exact hsegments s hs
    · exact List.mem_singleton.1 hs ▸ hseg

/-! ### What the frames show -/

/-- The payloads of the blobs, where `part` is what has come of one. -/
def blobs (part : List β) : List (Frame β) → List (List β)
  | [] => []
  | ⟨.start, payload⟩ :: frames => blobs payload frames
  | ⟨.chunk, payload⟩ :: frames => blobs (part ++ payload) frames
  | ⟨.finish, payload⟩ :: frames => (part ++ payload) :: blobs [] frames
  | _ :: frames => blobs part frames

theorem blobs_chunks (part last : List β) (chunks : List (List β)) (frames : List (Frame β)) :
    blobs part (chunks.map (Frame.mk .chunk) ++ ⟨.finish, last⟩ :: frames) =
      (part ++ chunks.flatten ++ last) :: blobs [] frames := by
  induction chunks generalizing part with
  | nil =>
    rw [List.flatten_nil, List.append_nil]
    rfl
  | cons chunk chunks ih =>
    rw [List.map_cons, List.cons_append, blobs, ih, List.flatten_cons, List.append_assoc part]

theorem Segment.Sound.blobs_eq {seg : Segment α β} (h : seg.Sound F) (frames : List (Frame β)) :
    blobs [] (seg.frames F ++ frames) =
      ((seg.items F).filter fun i ↦ F.large i.1).map Prod.snd ++ blobs [] frames := by
  cases h with
  | @pack cells hsmall =>
    have hnone : (Segment.items F (.pack cells)).filter (fun i ↦ F.large i.1) = [] := by
      rw [List.filter_eq_nil_iff]
      intro i hi
      obtain ⟨a, ha, rfl⟩ := List.mem_map.1 hi
      exact Bool.eq_false_iff.1 (hsmall a ha)
    rw [hnone]
    rfl
  | @blob a head last chunks hlarge =>
    rw [items, List.filter_cons_of_pos (by exact hlarge), List.filter_nil, Segment.frames,
      blobFrames, List.cons_append, blobs, List.append_assoc, List.singleton_append, blobs_chunks]
    rfl

/-- **The blobs** are what has been sent for the large cells. -/
theorem Framed.blobs_eq {frames : List (Frame β)} {items : List (α × List β)}
    (h : Framed F frames items) :
    blobs [] frames = (items.filter fun i ↦ F.large i.1).map Prod.snd := by
  obtain ⟨first, segments, rfl, rfl, hfirst, hsegments⟩ := h
  have hrest : blobs [] (segments.flatMap (Segment.frames F)) =
      ((segments.flatMap (Segment.items F)).filter fun i ↦ F.large i.1).map Prod.snd := by
    induction segments with
    | nil => rfl
    | cons seg segments ih =>
      rw [List.flatMap_cons, List.flatMap_cons, (hsegments seg List.mem_cons_self).blobs_eq,
        ih fun s hs ↦ hsegments s (List.mem_cons_of_mem seg hs), List.filter_append,
        List.map_append]
  have hopening := hfirst.blobs_eq (segments.flatMap (Segment.frames F))
  rw [List.filter_append, List.map_append, ← hrest]
  exact hopening

/-- Who sends something else for a large cell does not deliver it. -/
theorem Framed.eq_of_delivers {frames : List (Frame β)} {items : List (α × List β)}
    (h : Framed F frames items) (hdelivers : Delivers F frames (items.map Prod.fst)) :
    ∀ i ∈ items, F.large i.1 = true → i.2 = F.announce i.1 ++ F.encode i.1 := by
  have heq := h.blobs_eq.symm.trans (Framed.blobs_eq hdelivers)
  intro i hi hlarge
  -- both lists of blobs are maps of the same large items
  have hmap : ((items.map Prod.fst).map F.item).filter (fun i ↦ F.large i.1) =
      (items.filter fun i ↦ F.large i.1).map fun i ↦ F.item i.1 := by
    rw [List.map_map, List.filter_map]
    rfl
  rw [hmap, List.map_map] at heq
  have hi₂ := List.map_inj_left.1 heq i (List.mem_filter.2 ⟨hi, hlarge⟩)
  rw [hi₂]
  exact if_pos hlarge

/-- **One opening frame, which comes first.** -/
theorem Framed.opening_once {frames : List (Frame β)} {items : List (α × List β)}
    (h : Framed F frames items) :
    ∃ tags, frames.map Frame.tag = .opening :: tags ∧ Tag.opening ∉ tags := by
  obtain ⟨first, segments, rfl, -⟩ := h
  refine ⟨_, rfl, fun hmem ↦ ?_⟩
  obtain ⟨frame, hframe, htag⟩ := List.mem_map.1 hmem
  obtain ⟨seg, -, hseg⟩ := List.mem_flatMap.1 hframe
  cases seg with
  | pack cells =>
    rw [List.mem_singleton.1 hseg] at htag
    cases htag
  | blob a head chunks last =>
    rcases List.mem_cons.1 hseg with rfl | hseg
    · cases htag
    · rcases List.mem_append.1 hseg with hseg | hseg
      · obtain ⟨chunk, -, rfl⟩ := List.mem_map.1 hseg
        cases htag
      · rw [List.mem_singleton.1 hseg] at htag
        cases htag

/-! ### A sender -/

/-- What holds of a sender after some items: those that have not been sent are pending, and nothing
is pending behind a blob. -/
structure Streamed (F : Format α β) (sent : List (Frame β)) (pending : List β) (firstRow : Bool)
    (items : List (α × List β)) : Prop where
  split : ∃ (sentItems : List (α × List β)) (cells : List α),
    items = sentItems ++ cells.map (fun a ↦ (a, F.encode a)) ∧
    pending = cells.flatMap F.encode ∧ (Segment.pack cells).Sound F ∧
    if firstRow = true then sent = [] ∧ sentItems = [] else Framed F sent sentItems

theorem Streamed.init : Streamed F [] [] true [] :=
  ⟨[], [], rfl, rfl, .pack nofun, if_pos rfl ▸ ⟨rfl, rfl⟩⟩

variable {sent : List (Frame β)} {pending : List β} {firstRow : Bool} {items : List (α × List β)}

/-- **Packing** a small cell. -/
theorem Streamed.pack (h : Streamed F sent pending firstRow items) {a : α}
    (ha : F.large a = false) :
    Streamed F sent (pending ++ F.encode a) firstRow (items ++ [(a, F.encode a)]) := by
  obtain ⟨sentItems, cells, rfl, rfl, hcells, hsent⟩ := h
  refine ⟨sentItems, cells ++ [a], ?_, ?_, .pack fun b hb ↦ ?_, hsent⟩
  · rw [List.map_append, List.append_assoc]
    rfl
  · rw [List.flatMap_append, List.flatMap_singleton]
  · cases hcells with
    | pack hsmall =>
      rcases List.mem_append.1 hb with hb | hb
      · exact hsmall b hb
      · exact List.mem_singleton.1 hb ▸ ha

/-- The row frame that empties the buffer, if there is one. -/
def flush (pending : List β) (firstRow : Bool) : List (Frame β) :=
  if pending ≠ [] then [⟨if firstRow = true then .opening else .rows, pending⟩]
  else if firstRow = true then [⟨.opening, []⟩]
  else []

/-- **Flushing**: all items are in the frames. -/
theorem Streamed.flush (h : Streamed F sent pending firstRow items) :
    Framed F (sent ++ flush pending firstRow) items := by
  obtain ⟨sentItems, cells, rfl, rfl, hcells, hsent⟩ := h
  cases firstRow with
  | true =>
    obtain ⟨rfl, rfl⟩ := (if_pos rfl).mp hsent
    refine ⟨cells, [], ?_, ?_, hcells, nofun⟩
    · rw [Framing.flush]
      split
      · rfl
      · next hnil =>
        rw [not_not.1 hnil]
        rfl
    · rw [List.flatMap_nil, List.append_nil, List.nil_append]
  | false =>
    have hframed : Framed F sent sentItems := (if_neg Bool.false_ne_true).mp hsent
    rw [Framing.flush]
    split
    · exact hframed.append hcells
    · next hnil =>
      have hnone : cells = [] := by
        cases cells with
        | nil => rfl
        | cons a cells =>
          rw [List.flatMap_cons, not_not, List.append_eq_nil_iff] at hnil
          exact absurd hnil.1 (F.encode_ne_nil a)
      subst hnone
      rw [if_neg Bool.false_ne_true, List.map_nil, List.append_nil, List.append_nil]
      exact hframed

/-- Nothing is pending when all is in the frames. -/
theorem Framed.streamed (h : Framed F sent items) : Streamed F sent [] false items :=
  ⟨items, [], (List.append_nil _).symm, rfl, .pack nofun, (if_neg Bool.false_ne_true).mpr h⟩

/-- A large cell behind items that are all in the frames. -/
theorem Framed.blob (h : Framed F sent items) {a : α} {head last : List β}
    {chunks : List (List β)} (ha : F.large a = true) (hhead : F.width ≤ head.length) :
    Framed F (sent ++ blobFrames head chunks last)
      (items ++ [(a, head ++ chunks.flatten ++ last)]) :=
  h.append (.blob ha hhead : (Segment.blob a head chunks last).Sound F)

/-! ### A receiver -/

section Receiver

variable (decode : List β → Option (α × List β)) (width : ℕ)

/-- Decode cells until nothing is left, one at least in each of `n` rounds. -/
def readAll : ℕ → List β → Option (List α)
  | _, [] => some []
  | 0, _ :: _ => none
  | n + 1, b :: bs => do
    let (a, rest) ← decode (b :: bs)
    return a :: (← readAll n rest)

/-- The cells that have been received, and what has come of a blob. -/
structure Received (α β : Type) where
  cells : List α
  part : List β

/-- What a receiver does with a frame. -/
def receive (r : Received α β) (frame : Frame β) : Option (Received α β) :=
  match frame.tag with
  | .opening | .rows =>
    (readAll decode frame.payload.length frame.payload).map fun cells ↦
      { r with cells := r.cells ++ cells }
  | .start => some { r with part := frame.payload.drop width }
  | .chunk => some { r with part := r.part ++ frame.payload }
  | .finish =>
    match decode (r.part ++ frame.payload) with
    | some (a, []) => some ⟨r.cells ++ [a], []⟩
    | _ => none

/-- What is received with some frames. -/
def rebuild (frames : List (Frame β)) : Option (List α) :=
  (frames.foldlM (receive decode width) ⟨[], []⟩).map Received.cells

variable {decode width}

/-- The cell is decoded from wherever its encoding is in front. -/
def Decoded (F : Format α β) (decode : List β → Option (α × List β)) (a : α) : Prop :=
  ∀ rest, decode (F.encode a ++ rest) = some (a, rest)

theorem readAll_flatMap {cells : List α} (h : ∀ a ∈ cells, Decoded F decode a) {n : ℕ}
    (hn : (cells.flatMap F.encode).length ≤ n) :
    readAll decode n (cells.flatMap F.encode) = some cells := by
  induction cells generalizing n with
  | nil => rw [List.flatMap_nil, readAll]
  | cons a cells ih =>
    have hpos := List.length_pos_iff.2 (F.encode_ne_nil a)
    rw [List.flatMap_cons] at hn ⊢
    rw [List.length_append] at hn
    have hdecode := h a List.mem_cons_self (cells.flatMap F.encode)
    have hrest := ih (fun b hb ↦ h b (List.mem_cons_of_mem a hb)) (n := n - 1) (by omega)
    obtain ⟨m, rfl⟩ : ∃ m, n = m + 1 := ⟨n - 1, by omega⟩
    rw [Nat.add_sub_cancel] at hrest
    cases hcons : F.encode a ++ cells.flatMap F.encode with
    | nil =>
      rw [List.append_eq_nil_iff] at hcons
      exact absurd hcons.1 (F.encode_ne_nil a)
    | cons b bs =>
      rw [readAll, ← hcons, hdecode]
      simp only [Option.bind_eq_bind, Option.bind_some, hrest, Option.pure_def]

theorem receive_chunks (cells : List α) (part : List β) (chunks : List (List β)) :
    (chunks.map (Frame.mk .chunk)).foldlM (receive decode width) ⟨cells, part⟩ =
      some ⟨cells, part ++ chunks.flatten⟩ := by
  induction chunks generalizing part with
  | nil =>
    rw [List.flatten_nil, List.append_nil]
    rfl
  | cons chunk chunks ih =>
    rw [List.map_cons, List.foldlM_cons, List.flatten_cons, ← List.append_assoc]
    exact ih (part ++ chunk)

/-- A row frame. -/
theorem receive_rows {cells : List α} (hdecode : ∀ a ∈ cells, Decoded F decode a)
    (r : Received α β) {tag : Tag} (htag : tag = .opening ∨ tag = .rows) :
    receive decode width r ⟨tag, cells.flatMap F.encode⟩ =
      some { r with cells := r.cells ++ cells } := by
  have hread := readAll_flatMap hdecode (Nat.le_refl _)
  rcases htag with rfl | rfl
  · rw [receive, hread, Option.map_some]
  · rw [receive, hread, Option.map_some]

/-- A blob with what is to be sent for its cell. -/
theorem receive_blob {a : α} (hdecode : Decoded F decode a) (cells : List α) (part : List β)
    {head last : List β} {chunks : List (List β)} (hhead : F.width ≤ head.length)
    (heq : head ++ chunks.flatten ++ last = F.announce a ++ F.encode a) :
    (blobFrames head chunks last).foldlM (receive decode F.width) ⟨cells, part⟩ =
      some ⟨cells ++ [a], []⟩ := by
  have hpart : head.drop F.width ++ chunks.flatten ++ last = F.encode a := by
    have hdrop := congrArg (List.drop F.width) heq
    rw [List.append_assoc, List.drop_append_of_le_length hhead,
      List.drop_left' (F.length_announce a), ← List.append_assoc] at hdrop
    exact hdrop
  have hfinish : receive decode F.width ⟨cells, head.drop F.width ++ chunks.flatten⟩
      ⟨.finish, last⟩ = some ⟨cells ++ [a], []⟩ := by
    have hcell := hdecode []
    rw [List.append_nil, ← hpart] at hcell
    rw [receive, hcell]
  let parts := head.drop F.width ++ chunks.flatten
  have hchunks : (chunks.map (Frame.mk .chunk)).foldlM (receive decode F.width)
      ⟨cells, head.drop F.width⟩ = some ⟨cells, parts⟩ :=
    receive_chunks cells (head.drop F.width) chunks
  have hlast : [Frame.mk .finish last].foldlM (receive decode F.width) ⟨cells, parts⟩ =
      some ⟨cells ++ [a], []⟩ := by
    rw [List.foldlM_cons, hfinish]
    rfl
  have hbehind : (chunks.map (Frame.mk .chunk) ++ [Frame.mk .finish last]).foldlM
      (receive decode F.width) ⟨cells, head.drop F.width⟩ = some ⟨cells ++ [a], []⟩ := by
    rw [List.foldlM_append, hchunks]
    exact hlast
  exact hbehind

/-- The frames of a segment that carries what is to be sent. -/
theorem Segment.Sound.receive {seg : Segment α β} (h : seg.Sound F)
    (hitems : ∀ i ∈ seg.items F, i = F.item i.1 ∧ Decoded F decode i.1) (cells : List α)
    (part : List β) :
    ∃ part', (seg.frames F).foldlM (receive decode F.width) ⟨cells, part⟩ =
      some ⟨cells ++ (seg.items F).map Prod.fst, part'⟩ := by
  cases h with
  | @pack packed hsmall =>
    have hfst : (Segment.items F (.pack packed)).map Prod.fst = packed := by
      rw [items, List.map_map]
      exact List.map_id packed
    have hdecode : ∀ a ∈ packed, Decoded F decode a := fun a ha ↦
      (hitems (a, F.encode a) (List.mem_map_of_mem ha)).2
    refine ⟨part, ?_⟩
    rw [hfst, frames, List.foldlM_cons, receive_rows hdecode _ (.inr rfl)]
    rfl
  | @blob a head last chunks hlarge hhead =>
    obtain ⟨hitem, hdecode⟩ := hitems (a, head ++ chunks.flatten ++ last) List.mem_cons_self
    have hbytes := congrArg Prod.snd hitem
    rw [Format.item, if_pos hlarge] at hbytes
    exact ⟨[], receive_blob hdecode cells part hhead hbytes⟩

/-- **What is delivered is rebuilt** by a receiver who can decode the cells. -/
theorem Delivers.rebuild {frames : List (Frame β)} {cells : List α} (h : Delivers F frames cells)
    (hdecode : ∀ a ∈ cells, Decoded F decode a) :
    rebuild decode F.width frames = some cells := by
  obtain ⟨first, segments, rfl, hitems, -, hsegments⟩ := h
  have hmem : ∀ i ∈ first.map (fun a ↦ (a, F.encode a)) ++ segments.flatMap (Segment.items F),
      i = F.item i.1 ∧ Decoded F decode i.1 := fun i hi ↦ by
    rw [← hitems] at hi
    obtain ⟨a, ha, rfl⟩ := List.mem_map.1 hi
    exact ⟨rfl, hdecode a ha⟩
  have hcells : cells = first ++ (segments.flatMap (Segment.items F)).map Prod.fst := by
    have hfst := congrArg (List.map Prod.fst) hitems
    rw [List.map_append, List.map_map, List.map_map] at hfst
    exact (List.map_id cells).symm.trans (hfst.trans (congrArg (· ++ _) (List.map_id first)))
  -- the segments, from any cells received before
  have hrest : ∀ before part, ∃ part',
      (segments.flatMap (Segment.frames F)).foldlM (receive decode F.width) ⟨before, part⟩ =
        some ⟨before ++ (segments.flatMap (Segment.items F)).map Prod.fst, part'⟩ := by
    have hmem' : ∀ i ∈ segments.flatMap (Segment.items F),
        i = F.item i.1 ∧ Decoded F decode i.1 := fun i hi ↦ hmem i (List.mem_append_right _ hi)
    clear hitems hmem hcells
    induction segments with
    | nil =>
      refine fun before part ↦ ⟨part, ?_⟩
      rw [List.flatMap_nil, List.flatMap_nil, List.map_nil, List.append_nil]
      rfl
    | cons seg segments ih =>
      intro before part
      rw [List.flatMap_cons] at hmem'
      obtain ⟨part₁, hseg⟩ := (hsegments seg List.mem_cons_self).receive
        (fun i hi ↦ hmem' i (List.mem_append_left _ hi)) before part
      obtain ⟨part₂, hsegs⟩ := ih (fun s hs ↦ hsegments s (List.mem_cons_of_mem seg hs))
        (fun i hi ↦ hmem' i (List.mem_append_right _ hi))
        (before ++ (seg.items F).map Prod.fst) part₁
      refine ⟨part₂, ?_⟩
      rw [List.flatMap_cons, List.flatMap_cons, List.foldlM_append, hseg, List.map_append,
        ← List.append_assoc]
      exact hsegs
  have hfirst : ∀ a ∈ first, Decoded F decode a := fun a ha ↦
    (hmem (a, F.encode a) (List.mem_append_left _ (List.mem_map_of_mem ha))).2
  obtain ⟨part, hall⟩ := hrest first []
  rw [Framing.rebuild, List.foldlM_cons, receive_rows hfirst _ (.inl rfl), hcells]
  show Option.map _ (List.foldlM _ (Received.mk ([] ++ first) []) _) = _
  rw [List.nil_append, hall, Option.map_some]

end Receiver

/-! ### What is promised of a sender -/

/-- The frames are exact: there is one opening frame, it comes first, and the cells are delivered.
Whoever can decode the cells rebuilds them. -/
structure Exact (F : Format α β) (frames : List (Frame β)) (cells : List α) : Prop where
  delivers : Delivers F frames cells
  opening : ∃ tags, frames.map Frame.tag = .opening :: tags ∧ Tag.opening ∉ tags
  rebuilt : ∀ decode, (∀ a ∈ cells, Decoded F decode a) →
    rebuild decode F.width frames = some cells

theorem Delivers.exact {frames : List (Frame β)} {cells : List α} (h : Delivers F frames cells) :
    Exact F frames cells where
  delivers := h
  opening := h.opening_once
  rebuilt _ hdecode := h.rebuild hdecode

/-- Items that are what is to be sent. -/
theorem Framed.delivers {frames : List (Frame β)} {items : List (α × List β)}
    (h : Framed F frames items) (hitems : ∀ i ∈ items, i.2 = (F.item i.1).2) :
    Delivers F frames (items.map Prod.fst) := by
  have hsame : (items.map Prod.fst).map F.item = items := by
    rw [List.map_map]
    refine (List.map_congr_left fun i hi ↦ ?_).trans (List.map_id items)
    exact Prod.ext rfl (hitems i hi).symm
  rw [Delivers, hsame]
  exact h

end Framing
