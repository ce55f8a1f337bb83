import SocketPro.File.UploadReplay

/-!
# The window of an upload

The branches of `OnResultReturned` of `streamingfile.h` that send a local file, for the context at
the front of `m_vContext`: `idUpload`, which sends chunks until the sending buffer is full,
`idUploading`, which sends one more for each chunk that the server has written, and
`idUploadCompleted`. Callbacks and the job of the client queue are left out.

The file does not change, and a read of it returns what is left up to the size asked for; every send
succeeds; the server answers the requests one after the other, the chunks with their positions.

**What carries the proof** is `Window`: the requests so far, whether or not they are answered, are
the chunks of what has been read, and behind them `idUploadCompleted` as soon as `Sent` is set; and
while it is not, a chunk is unanswered.
-/

namespace SocketPro.File

open Posix

/-- The requests of an upload after `idUpload`. -/
inductive UploadRequest
  | idUploadBackup (initSize : ℤ)
  | idUploading (chunk : Content)
  | idUploadCompleted
deriving DecidableEq, Repr

/-- The fields of a `CContext` that the sending depends on, for an open file of which `unread` has
not been read. -/
structure UploadContext where
  unread : Content
  InitSize : ℤ
  Sent : Bool
deriving DecidableEq, Repr

/-- The context, the requests that the server has answered, and those it has not. -/
structure Uploader where
  context : Option UploadContext
  answered : List UploadRequest
  inFlight : List UploadRequest
deriving DecidableEq, Repr

/-- What the socket answers while the first chunks are sent: the number of bytes in the sending
buffer and whether there is a connection, after the `k`-th chunk. -/
structure SocketAnswers where
  queueAvailable : Bool
  bytesInSendingBuffer : ℕ → ℕ
  connected : ℕ → Bool

/-- The sending loop of `idUpload`: the chunks it sends, the last one that it reads, and what
remains of the file. -/
def sendLoop (a : SocketAnswers) (k : ℕ) (buffer unread : Content) :
    List Content × Content × Content :=
  if buffer.length = STREAM_CHUNK_SIZE then
    let next := unread.take STREAM_CHUNK_SIZE
    let unread := unread.drop STREAM_CHUNK_SIZE
    if !a.queueAvailable &&
        (decide (a.bytesInSendingBuffer k > 40 * STREAM_CHUNK_SIZE) || !a.connected k) then
      ([buffer], next, unread)
    else
      let (chunks, last, unread) := sendLoop a (k + 1) next unread
      (buffer :: chunks, last, unread)
  else ([], buffer, unread)
termination_by buffer.length + unread.length
decreasing_by
  simp only [List.length_take, List.length_drop, STREAM_CHUNK_SIZE] at *
  omega

namespace Uploader

/-- All requests in the order in which they have been sent. -/
def requests (s : Uploader) : List UploadRequest := s.answered ++ s.inFlight

/-- `SendRequest`. -/
def SendRequest (s : Uploader) (r : UploadRequest) : Uploader :=
  { s with inFlight := s.inFlight ++ [r] }

/-- What both branches do with the bytes that have been read last: they send them if there are any,
and complete the upload if the file has ended. -/
def sendLast (s : Uploader) (c : UploadContext) (buffer : Content) : Uploader :=
  let s := if buffer.length > 0 then s.SendRequest (.idUploading buffer) else s
  if buffer.length < STREAM_CHUNK_SIZE then
    { s.SendRequest .idUploadCompleted with context := some { c with Sent := true } }
  else { s with context := some c }

/-- The branch of `idUpload`. -/
def idUpload (s : Uploader) (a : SocketAnswers) (res : ℤ) (errMsg : String) (initSize : ℤ) :
    Uploader :=
  if res ≠ 0 ∨ errMsg ≠ "" then { s with context := none }
  else
    match s.context with
    | none => s
    | some c =>
      let s := if a.queueAvailable then s.SendRequest (.idUploadBackup initSize) else s
      let (chunks, buffer, unread) := sendLoop a 0 (c.unread.take STREAM_CHUNK_SIZE)
        (c.unread.drop STREAM_CHUNK_SIZE)
      let s := chunks.foldl (fun s chunk ↦ s.SendRequest (.idUploading chunk)) s
      s.sendLast { c with unread := unread, InitSize := initSize } buffer

/-- The branch of `idUploading`. -/
def idUploading (s : Uploader) (uploaded res : ℤ) (errMsg : String) : Uploader :=
  match s.context with
  | none => s
  | some c =>
    if uploaded < 0 ∨ res ≠ 0 ∨ errMsg ≠ "" then { s with context := none }
    else if c.Sent then s
    else
      s.sendLast { c with unread := c.unread.drop STREAM_CHUNK_SIZE }
        (c.unread.take STREAM_CHUNK_SIZE)

/-- The branch of `idUploadCompleted`. -/
def idUploadCompleted (s : Uploader) : Uploader := { s with context := none }

/-- The server answers the oldest request; `uploaded` is the position after a chunk. -/
def answer (s : Uploader) (uploaded : ℕ) : Uploader :=
  match s.inFlight with
  | [] => s
  | r :: inFlight =>
    let s := { s with answered := s.answered ++ [r], inFlight := inFlight }
    match r with
    | .idUploadBackup _ => s
    | .idUploading _ => s.idUploading uploaded 0 ""
    | .idUploadCompleted => s.idUploadCompleted

/-- A file that has been opened, for which `idUpload` has been sent. -/
def opened (file : Content) : Uploader := ⟨some ⟨file, -1, false⟩, [], []⟩

/-- What has not been read of the file. -/
def unread (s : Uploader) : Content := (s.context.map UploadContext.unread).getD []

/-- `Sent`; it is set for good when the context is gone. -/
def Sent (s : Uploader) : Bool := (s.context.map UploadContext.Sent).getD true

end Uploader

/-! ### The window -/

/-- These are non-empty chunks of at most `STREAM_CHUNK_SIZE` bytes. -/
def AreChunks (chunks : List Content) : Prop :=
  ∀ chunk ∈ chunks, chunk ≠ [] ∧ chunk.length ≤ STREAM_CHUNK_SIZE

/-- The requests of an upload: perhaps `idUploadBackup`, the chunks, and `idUploadCompleted` when
all have been sent. -/
def requestsOf (backup : Option ℤ) (chunks : List Content) (sent : Bool) : List UploadRequest :=
  backup.toList.map .idUploadBackup ++ chunks.map .idUploading ++
    if sent then [.idUploadCompleted] else []

/-- Between the answer to `idUpload` and the end. -/
structure Window (file : Content) (s : Uploader) : Prop where
  requests : ∃ backup chunks, s.requests = requestsOf backup chunks s.Sent ∧ AreChunks chunks ∧
    chunks.flatten ++ s.unread = file
  sent : s.Sent = true → s.unread = []
  waits : s.Sent = false → ∃ chunk, .idUploading chunk ∈ s.inFlight
  closed : s.context = none → s.inFlight = []

/-! ### Reading -/

/-- What one read returns, of a file with `unread` left. -/
theorem read_chunk (unread : Content) :
    (unread.take STREAM_CHUNK_SIZE).length ≤ STREAM_CHUNK_SIZE ∧
      ((unread.take STREAM_CHUNK_SIZE).length < STREAM_CHUNK_SIZE →
        unread.drop STREAM_CHUNK_SIZE = []) := by
  rw [List.length_take, List.drop_eq_nil_iff]
  exact ⟨Nat.min_le_left _ _, fun hlt ↦ by omega⟩

theorem ne_nil_of_full {buffer : Content} (h : buffer.length = STREAM_CHUNK_SIZE) :
    buffer ≠ [] := by
  rintro rfl
  exact absurd h (by decide)

theorem AreChunks.cons {buffer : Content} {chunks : List Content} (hne : buffer ≠ [])
    (hle : buffer.length ≤ STREAM_CHUNK_SIZE) (h : AreChunks chunks) :
    AreChunks (buffer :: chunks) := by
  intro chunk hmem
  rcases List.mem_cons.1 hmem with rfl | hmem
  · exact ⟨hne, hle⟩
  · exact h chunk hmem

theorem AreChunks.concat {buffer : Content} {chunks : List Content} (h : AreChunks chunks)
    (hne : buffer ≠ []) (hle : buffer.length ≤ STREAM_CHUNK_SIZE) :
    AreChunks (chunks ++ [buffer]) := by
  intro chunk hmem
  rcases List.mem_append.1 hmem with hmem | hmem
  · exact h chunk hmem
  · obtain rfl := List.mem_singleton.1 hmem
    exact ⟨hne, hle⟩

/-- **The loop of `idUpload`** loses nothing, and stops with a short read only at the end. -/
theorem sendLoop_spec (a : SocketAnswers) (k : ℕ) (buffer unread : Content)
    (hle : buffer.length ≤ STREAM_CHUNK_SIZE)
    (hshort : buffer.length < STREAM_CHUNK_SIZE → unread = []) :
    ∃ chunks last rest, sendLoop a k buffer unread = (chunks, last, rest) ∧
      chunks.flatten ++ (last ++ rest) = buffer ++ unread ∧ AreChunks chunks ∧
      last.length ≤ STREAM_CHUNK_SIZE ∧ (last.length < STREAM_CHUNK_SIZE → rest = []) := by
  fun_induction sendLoop a k buffer unread with
  | case1 k buffer unread hfull next rest hstop =>
    obtain ⟨hnext, hend⟩ := read_chunk unread
    refine ⟨[buffer], next, rest, rfl, ?_, ?_, hnext, hend⟩
    · rw [List.flatten_singleton, List.take_append_drop]
    · exact AreChunks.cons (ne_nil_of_full hfull) hle fun _ h ↦ absurd h List.not_mem_nil
  | case2 k buffer unread hfull next rest hgo chunks last rest' heq ih =>
    obtain ⟨hnext, hend⟩ := read_chunk unread
    obtain ⟨chunks', last', rest'', heq', hall, hchunks, hlast, hrest⟩ := ih hnext hend
    obtain ⟨rfl, rfl, rfl⟩ : chunks = chunks' ∧ last = last' ∧ rest' = rest'' := by
      have htriple := heq.symm.trans heq'
      simpa using htriple
    refine ⟨_, _, _, rfl, ?_, AreChunks.cons (ne_nil_of_full hfull) hle hchunks, hlast, hrest⟩
    rw [List.flatten_cons, List.append_assoc, hall, List.take_append_drop]
  | case3 k buffer unread hpart =>
    exact ⟨[], buffer, unread, rfl, rfl, fun _ h ↦ absurd h List.not_mem_nil, hle, hshort⟩

namespace Uploader

theorem foldl_sendRequest (chunks : List Content) (s : Uploader) :
    chunks.foldl (fun s chunk ↦ s.SendRequest (.idUploading chunk)) s =
      { s with inFlight := s.inFlight ++ chunks.map .idUploading } := by
  induction chunks generalizing s with
  | nil => rw [List.map_nil, List.append_nil]; rfl
  | cons chunk chunks ih =>
    rw [List.foldl_cons, ih, SendRequest, List.map_cons, List.append_assoc, List.singleton_append]

/-- The chunk of a read: none at the end of the file. -/
def chunkOf (buffer : Content) : List Content := if buffer = [] then [] else [buffer]

theorem flatten_chunkOf (buffer : Content) : (chunkOf buffer).flatten = buffer := by
  unfold chunkOf
  split_ifs with h
  · rw [h, List.flatten_nil]
  · exact List.flatten_singleton

theorem areChunks_append_chunkOf {chunks : List Content} (h : AreChunks chunks) {buffer : Content}
    (hle : buffer.length ≤ STREAM_CHUNK_SIZE) : AreChunks (chunks ++ chunkOf buffer) := by
  unfold chunkOf
  split_ifs with hnil
  · rwa [List.append_nil]
  · exact h.concat hnil hle

theorem sendLast_eq (s : Uploader) {c : UploadContext} (hsent : c.Sent = false)
    (buffer : Content) :
    s.sendLast c buffer =
      ⟨some { c with Sent := decide (buffer.length < STREAM_CHUNK_SIZE) }, s.answered,
        s.inFlight ++ ((chunkOf buffer).map .idUploading ++
          if buffer.length < STREAM_CHUNK_SIZE then [.idUploadCompleted] else [])⟩ := by
  obtain ⟨unread, initSize, sent⟩ := c
  obtain rfl : sent = false := hsent
  by_cases hnil : buffer = []
  · subst hnil
    simp [sendLast, SendRequest, chunkOf, STREAM_CHUNK_SIZE]
  · have hpos : buffer.length > 0 := List.length_pos_iff.2 hnil
    simp only [sendLast, SendRequest, chunkOf, if_pos hpos, if_neg hnil]
    split_ifs with hshort <;> simp [hshort]

/-- **After a read.** The bytes that have been read are sent, and the upload is completed if they
are fewer than a chunk. -/
theorem sendLast_window {s : Uploader} {c : UploadContext} {file buffer : Content}
    {backup : Option ℤ} {chunks : List Content} (hsent : c.Sent = false)
    (hrequests : s.requests = requestsOf backup chunks false) (hchunks : AreChunks chunks)
    (hfile : chunks.flatten ++ (buffer ++ c.unread) = file)
    (hle : buffer.length ≤ STREAM_CHUNK_SIZE)
    (hshort : buffer.length < STREAM_CHUNK_SIZE → c.unread = []) :
    Window file (s.sendLast c buffer) := by
  rw [sendLast_eq s hsent]
  refine ⟨⟨backup, chunks ++ chunkOf buffer, ?_, areChunks_append_chunkOf hchunks hle, ?_⟩,
    fun h ↦ hshort (of_decide_eq_true h), fun h ↦ ?_, fun h ↦ by cases h⟩
  · have hsplit : s.answered ++ s.inFlight =
        backup.toList.map .idUploadBackup ++ chunks.map .idUploading := by
      rw [← List.append_nil (backup.toList.map _ ++ _)]
      exact hrequests
    simp only [requests, requestsOf, Sent, Option.map_some, Option.getD_some, ← List.append_assoc,
      hsplit, List.map_append, decide_eq_true_eq]
  · rw [List.flatten_append, flatten_chunkOf, List.append_assoc]
    exact hfile
  · have hfull : ¬ buffer.length < STREAM_CHUNK_SIZE := of_decide_eq_false h
    have hne : buffer ≠ [] := ne_nil_of_full (by omega)
    exact ⟨buffer, by simp [chunkOf, hne]⟩

/-- The answer to `idUpload` opens the window. -/
theorem idUpload_window (a : SocketAnswers) (file : Content) (initSize : ℤ) :
    Window file ((opened file).idUpload a 0 "" initSize) := by
  obtain ⟨hle, hshort⟩ := read_chunk file
  obtain ⟨chunks, last, rest, hloop, hall, hchunks, hlast, hrest⟩ := sendLoop_spec a 0 _ _ hle hshort
  have hfile : chunks.flatten ++ (last ++ rest) = file := hall.trans (List.take_append_drop _ _)
  simp only [idUpload, opened, ne_eq, not_true_eq_false, or_self, if_false, hloop,
    foldl_sendRequest]
  refine @sendLast_window _ _ _ _ (if a.queueAvailable then some initSize else none) _ rfl ?_
    hchunks hfile hlast hrest
  cases a.queueAvailable <;> simp [requests, requestsOf, SendRequest]

/-- The branch of `idUploading` for a chunk that has been written. -/
theorem idUploading_acknowledged {s : Uploader} {c : UploadContext} (hc : s.context = some c)
    (uploaded : ℕ) :
    s.idUploading uploaded 0 "" =
      if c.Sent then s
      else s.sendLast { c with unread := c.unread.drop STREAM_CHUNK_SIZE }
        (c.unread.take STREAM_CHUNK_SIZE) := by
  have hok : ¬ ((uploaded : ℤ) < 0 ∨ (0 : ℤ) ≠ 0 ∨ "" ≠ "") := by
    simp only [ne_eq, not_true_eq_false, or_false]
    omega
  simp only [idUploading, hc, if_neg hok]

/-- Behind `idUploadCompleted` there is no request. -/
theorem requestsOf_completed {backup : Option ℤ} {chunks : List Content} {sent : Bool}
    {before after : List UploadRequest}
    (h : before ++ .idUploadCompleted :: after = requestsOf backup chunks sent) :
    after = [] ∧ sent = true := by
  have hnot : UploadRequest.idUploadCompleted ∉
      backup.toList.map .idUploadBackup ++ chunks.map .idUploading := by
    simp
  have hmem : UploadRequest.idUploadCompleted ∈ before ++ [.idUploadCompleted] :=
    List.mem_append_right _ (List.mem_singleton_self _)
  cases sent with
  | false =>
    have hmem' : UploadRequest.idUploadCompleted ∈ before ++ .idUploadCompleted :: after :=
      List.mem_append_right _ List.mem_cons_self
    rw [h, requestsOf, if_neg Bool.false_ne_true, List.append_nil] at hmem'
    exact absurd hmem' hnot
  | true =>
    refine ⟨?_, rfl⟩
    rcases List.eq_nil_or_concat after with hnil | ⟨init, r, rfl⟩
    · exact hnil
    · -- then it would be among the requests before the last one
      rw [requestsOf, if_pos rfl, List.append_cons, List.concat_eq_append, ← List.append_assoc] at h
      have hinit := (List.append_inj' h rfl).1
      rw [← hinit] at hnot
      exact absurd (List.mem_append_left _ hmem) hnot

/-- **One answer.** -/
theorem answer_window {s : Uploader} {file : Content} (h : Window file s) (uploaded : ℕ) :
    Window file (s.answer uploaded) := by
  obtain ⟨⟨backup, chunks, hrequests, hchunks, hfile⟩, hsent, hwaits, hclosed⟩ := h
  unfold answer
  cases hflight : s.inFlight with
  | nil => exact ⟨⟨backup, chunks, hrequests, hchunks, hfile⟩, hsent, hwaits, hclosed⟩
  | cons r inFlight =>
    have hall : s.answered ++ [r] ++ inFlight = s.requests := by
      rw [requests, hflight, List.append_assoc, List.singleton_append]
    obtain ⟨c, hc⟩ : ∃ c, s.context = some c :=
      Option.ne_none_iff_exists'.1 fun hnone ↦ by simpa [hflight] using hclosed hnone
    have hSent : s.Sent = c.Sent := by simp [Sent, hc]
    have hunread : s.unread = c.unread := by simp [Uploader.unread, hc]
    cases r with
    | idUploadBackup initSize =>
      refine ⟨⟨backup, chunks, hall.trans hrequests, hchunks, hfile⟩, hsent, fun h ↦ ?_, fun h ↦ ?_⟩
      · obtain ⟨chunk, hmem⟩ := hwaits h
        rw [hflight, List.mem_cons] at hmem
        exact ⟨chunk, hmem.resolve_left (by simp)⟩
      · exact absurd (hc.symm.trans h) (by simp)
    | idUploading chunk =>
      have hbranch := idUploading_acknowledged
        (s := ⟨s.context, s.answered ++ [UploadRequest.idUploading chunk], inFlight⟩) hc uploaded
      dsimp only at hbranch ⊢
      rw [hbranch]
      split_ifs with hdone
      · refine ⟨⟨backup, chunks, hall.trans hrequests, hchunks, hfile⟩, hsent, fun h ↦ ?_,
          fun h ↦ ?_⟩
        · have hfalse : s.Sent = false := h
          exact absurd (hfalse.symm.trans (hSent.trans hdone)) (by simp)
        · exact absurd (hc.symm.trans h) (by simp)
      · have hmore : c.Sent = false := Bool.eq_false_iff.2 hdone
        obtain ⟨hle, hshort⟩ := read_chunk c.unread
        rw [hSent, hmore] at hrequests
        refine sendLast_window hmore (hall.trans hrequests) hchunks ?_ hle hshort
        rw [List.take_append_drop, ← hunread]
        exact hfile
    | idUploadCompleted =>
      have hlast := requestsOf_completed ((List.append_cons _ _ _).trans (hall.trans hrequests))
      refine ⟨⟨backup, chunks, ?_, hchunks, ?_⟩, fun _ ↦ rfl, fun h ↦ ?_, fun _ ↦ hlast.1⟩
      · rw [hlast.2] at hrequests
        exact hall.trans hrequests
      · rw [hsent hlast.2] at hfile
        exact hfile
      · cases h

/-! ### The run -/

/-- What is left to be answered, at most. -/
def fuel (s : Uploader) : ℕ :=
  s.inFlight.length + 2 * s.unread.length + if s.Sent then 0 else 2

theorem fuel_sendLast (s : Uploader) {c : UploadContext} (hsent : c.Sent = false)
    {unread : Content} :
    (s.sendLast { c with unread := unread.drop STREAM_CHUNK_SIZE }
      (unread.take STREAM_CHUNK_SIZE)).fuel < s.inFlight.length + 2 * unread.length + 3 := by
  rw [sendLast_eq s (c := { c with unread := unread.drop STREAM_CHUNK_SIZE }) hsent]
  obtain ⟨-, hshort⟩ := read_chunk unread
  have hsplit : (unread.take STREAM_CHUNK_SIZE).length +
      (unread.drop STREAM_CHUNK_SIZE).length = unread.length := by
    rw [← List.length_append, List.take_append_drop]
  simp only [fuel, Uploader.unread, Sent, Option.map_some, Option.getD_some, List.length_append,
    List.length_map]
  unfold chunkOf
  by_cases hnil : unread.take STREAM_CHUNK_SIZE = []
  · have hlt : (unread.take STREAM_CHUNK_SIZE).length < STREAM_CHUNK_SIZE := by
      rw [hnil]
      decide
    simp only [hlt, if_true, decide_true, if_pos hnil, List.length_nil, List.length_singleton]
    omega
  · have hpos : 0 < (unread.take STREAM_CHUNK_SIZE).length := List.length_pos_iff.2 hnil
    rw [if_neg hnil]
    by_cases hlt : (unread.take STREAM_CHUNK_SIZE).length < STREAM_CHUNK_SIZE
    · simp only [hlt, if_true, decide_true, List.length_singleton]
      omega
    · simp only [hlt, if_false, decide_false, Bool.false_eq_true, List.length_singleton,
        List.length_nil]
      omega

/-- **Every answer brings the end nearer.** -/
theorem fuel_answer {s : Uploader} {file : Content} (h : Window file s) (hne : s.inFlight ≠ [])
    (uploaded : ℕ) : (s.answer uploaded).fuel < s.fuel := by
  obtain ⟨r, inFlight, hflight⟩ := List.exists_cons_of_ne_nil hne
  obtain ⟨c, hc⟩ : ∃ c, s.context = some c :=
    Option.ne_none_iff_exists'.1 fun hnone ↦ hne (h.closed hnone)
  have hSent : s.Sent = c.Sent := by simp [Sent, hc]
  have hunread : s.unread = c.unread := by simp [Uploader.unread, hc]
  have hfuel : s.fuel = inFlight.length + 1 + 2 * c.unread.length + if c.Sent then 0 else 2 := by
    rw [fuel, hflight, List.length_cons, hSent, hunread]
  have hpopped (answered : List UploadRequest) :
      fuel ⟨s.context, answered, inFlight⟩ =
        inFlight.length + 2 * c.unread.length + if c.Sent then 0 else 2 := by
    simp [fuel, Uploader.unread, Sent, hc]
  rw [answer, hflight, hfuel]
  cases r with
  | idUploadBackup initSize =>
    dsimp only
    rw [hpopped]
    omega
  | idUploading chunk =>
    have hbranch := idUploading_acknowledged
      (s := ⟨s.context, s.answered ++ [UploadRequest.idUploading chunk], inFlight⟩) hc uploaded
    dsimp only at hbranch ⊢
    rw [hbranch]
    by_cases hdone : c.Sent = true
    · rw [if_pos hdone, hpopped, if_pos hdone]
      omega
    · rw [if_neg hdone, if_neg hdone]
      refine (fuel_sendLast _ (Bool.eq_false_iff.2 hdone)).trans_le ?_
      dsimp only
      omega
  | idUploadCompleted =>
    simp only [idUploadCompleted, fuel, Uploader.unread, Sent, Option.map_none, Option.getD_none,
      List.length_nil, if_true]
    omega

theorem answer_of_done {s : Uploader} (h : s.inFlight = []) (uploaded : ℕ) :
    s.answer uploaded = s := by
  rw [answer, h]

theorem answers_of_done {s : Uploader} (h : s.inFlight = []) (positions : List ℕ) :
    positions.foldl answer s = s := by
  induction positions with
  | nil => rfl
  | cons uploaded positions ih => rw [List.foldl_cons, answer_of_done h, ih]

/-- **The run**: it stays in the window, and as many answers as the fuel end it. -/
theorem answers_window {file : Content} (positions : List ℕ) : ∀ {s : Uploader}, Window file s →
    Window file (positions.foldl answer s) ∧
      (s.fuel ≤ positions.length → (positions.foldl answer s).inFlight = []) := by
  induction positions with
  | nil =>
    intro s h
    refine ⟨h, fun hfuel ↦ List.length_eq_zero_iff.1 ?_⟩
    rw [fuel, List.length_nil] at hfuel
    rw [List.foldl_nil]
    omega
  | cons uploaded positions ih =>
    intro s h
    obtain ⟨hwindow, hends⟩ := ih (answer_window h uploaded)
    refine ⟨hwindow, fun hfuel ↦ ?_⟩
    by_cases hdone : s.inFlight = []
    · rw [answers_of_done hdone]
      exact hdone
    · have hless := fuel_answer h hdone uploaded
      rw [List.length_cons] at hfuel
      exact hends (by omega)

/-- **The window delivers the file**, for every file, every way the sending buffer fills up during
the first loop, and all positions that the server answers: while `Sent` is not set, a chunk is
unanswered; and when enough requests have been answered, those that were sent are the chunks of the
file and, once and last, `idUploadCompleted`. -/
theorem upload_delivers (a : SocketAnswers) (file : Content) (initSize : ℤ) :
    (∀ positions : List ℕ,
      let s := positions.foldl answer ((opened file).idUpload a 0 "" initSize)
      s.Sent = false → ∃ chunk, .idUploading chunk ∈ s.inFlight) ∧
    ∃ n, ∀ positions : List ℕ, n ≤ positions.length →
      ∃ backup chunks,
        (positions.foldl answer ((opened file).idUpload a 0 "" initSize)).requests =
          requestsOf backup chunks true ∧
        AreChunks chunks ∧ chunks.flatten = file := by
  have hbegin := idUpload_window a file initSize
  refine ⟨fun positions ↦ (answers_window positions hbegin).1.waits,
    ((opened file).idUpload a 0 "" initSize).fuel, fun positions hlong ↦ ?_⟩
  obtain ⟨hwindow, hends⟩ := answers_window positions hbegin
  have hdone := hends hlong
  have hsent : (positions.foldl answer ((opened file).idUpload a 0 "" initSize)).Sent = true := by
    by_contra hnot
    obtain ⟨chunk, hmem⟩ := hwindow.waits (Bool.eq_false_iff.2 hnot)
    rw [hdone] at hmem
    exact absurd hmem List.not_mem_nil
  obtain ⟨backup, chunks, hrequests, hchunks, hfile⟩ := hwindow.requests
  rw [hsent] at hrequests
  rw [hwindow.sent hsent, List.append_nil] at hfile
  exact ⟨backup, chunks, hrequests, hchunks, hfile⟩

end Uploader

end SocketPro.File
