import SocketPro.Go.LockDiscipline

/-!
# A whole upload of the Go adapter

The run that begins with the answer to `Upload`, for the context at the front of the queue: the
server answers the requests of the upload one after the other, each chunk with a position and
without an error. Every request is sent, and the file does not change.

The answers find one of two states. When `UploadCompleted` has been sent by the first loop
(`Completed`), the rest of the answers send nothing. When that loop has stopped for a full sending
buffer behind a full chunk (`Unfinished`), each answer sends the next chunk, and what ends this is a
read at the end of the file, which is taken for an error, or a short chunk, which is sent once more
with `UploadCompleted`.
-/

namespace SocketPro.Go.GFile

open Posix (Content)
open CStreamingFile (acknowledged sendNext)

/-- Every request is sent. -/
structure World.Sends (w : World) : Prop where
  start : ∀ n, (w.start n).sent = true
  backup : w.backup = true
  chunk : ∀ k, (w.chunk k).sent = true
  completed : w.completed.sent = true

/-- The requests of an upload that the server has accepted. -/
def Request.ofUpload : Request → Bool
  | .Uploading _ | .UploadCompleted _ | .UploadBackup .. => true
  | .Download .. | .Upload .. => false

def Request.isBackup : Request → Bool
  | .UploadBackup .. => true
  | _ => false

/-- Such a request, if it has been sent. -/
def Event.request : Event → Option Request
  | .SendRequest r true => if r.ofUpload then some r else none
  | _ => none

/-- What a callback `Download` has been called with. -/
def Event.callback : Event → Option (ℤ × String)
  | .Download ErrCode ErrMsg => some (ErrCode, ErrMsg)
  | _ => none

def requests (log : List Event) : List Request := log.filterMap Event.request

def callbacks (log : List Event) : List (ℤ × String) := log.filterMap Event.callback

/-! ### The run -/

/-- The answer of the server; `uploaded` is the position behind a chunk. -/
def answerTo (uploaded : ℕ) : Request → Reply
  | .Uploading _ => .Uploading uploaded 0 ""
  | .UploadCompleted _ => .UploadCompleted
  | .UploadBackup .. => .UploadBackup
  | .Download .. | .Upload .. => .other

/-- The handler, and how many of its requests have been answered. -/
structure Session where
  sf : CStreamingFile
  answered : ℕ

namespace Session

def awaiting (s : Session) : List Request := (requests s.sf.log).drop s.answered

/-- The oldest request is answered. -/
def answerNext (w : World) (uploaded : ℕ) (s : Session) : Session :=
  match s.awaiting with
  | [] => s
  | r :: _ => ⟨s.sf.requestProcessed w (answerTo uploaded r), s.answered + 1⟩

end Session

/-- What a run meets. -/
structure Course where
  worlds : ℕ → World
  /-- The positions that the server answers. -/
  uploaded : ℕ → ℕ
  initSize : ℤ

/-- After the answer to `Upload` and `n` more. -/
def Course.session (course : Course) (sf : CStreamingFile) : ℕ → Session
  | 0 => ⟨sf.requestProcessed (course.worlds 0) (.Upload 0 "" course.initSize), 0⟩
  | n + 1 => (course.session sf n).answerNext (course.worlds (n + 1)) (course.uploaded n)

/-- An opened upload with a callback, for which `Upload` has been sent. -/
def opened (c : CContext) (file : Content) : CContext :=
  { c with
    ErrCode := 0, ErrMsg := "", Download := true, Uploading := true, Sent := false
    File := some ⟨file, ⟨false, 0⟩, false⟩ }

/-- A handler with such an upload at the front. -/
def uploadOf (c : CContext) (file : Content) (rest : List CContext) (max : ℕ) : CStreamingFile :=
  { m_vContext := opened c file :: rest, m_maxDownloading := max }

/-- The chunks that were sent are the file, behind them there is one `UploadCompleted`, without any
bytes, and the first callback is that of success. -/
structure Delivered (file : Content) (log : List Event) : Prop where
  requests : ∃ chunks : List Content,
    (requests log).filter (!·.isBackup) = chunks.map .Uploading ++ [.UploadCompleted []] ∧
      chunks.flatten = file
  callback : (callbacks log).head? = some (0, "")

/-- The run comes to an end with the file delivered. -/
def Course.Delivers (course : Course) (sf : CStreamingFile) (file : Content) : Prop :=
  ∃ n, (course.session sf n).awaiting = [] ∧ Delivered file (course.session sf n).sf.log

/-! ### The log grows -/

namespace CStreamingFile

variable (sf : CStreamingFile) (w : World) (cxt : CContext)

theorem prefix_note (events : List Event) : sf.log <+: (sf.note events).log :=
  List.prefix_append _ _

theorem prefix_postProcessing : sf.log <+: (sf.postProcessing w).log := by
  obtain ⟨events, hlog, -⟩ := log_postProcessing sf w
  exact ⟨events, hlog.symm⟩

theorem prefix_callDownload (ErrCode : ℤ) (ErrMsg : String) :
    sf.log <+: (sf.callDownload cxt ErrCode ErrMsg).log := by
  unfold callDownload
  split_ifs
  · exact sf.prefix_note _
  · exact List.prefix_rfl

/-- A context is closed and removed, and the lock taken for it. -/
theorem prefix_remove : sf.log <+: ((sf.Lock.closeFront cxt).PopFront).Unlock.log := by
  simp [Unlock, PopFront, closeFront, setFront, Lock, note, List.append_assoc]

/-- A failed upload is called back before anything else. -/
theorem prefix_endFailed_called (abort : Bool) :
    ((sf.closeFront cxt).callDownload cxt cxt.ErrCode cxt.ErrMsg).log <+:
      (sf.endFailed w cxt abort).log := by
  refine List.IsPrefix.trans ?_ (prefix_postProcessing _ w)
  have hremoved : ((sf.closeFront cxt).callDownload cxt cxt.ErrCode cxt.ErrMsg).log <+:
      (((sf.closeFront cxt).callDownload cxt cxt.ErrCode cxt.ErrMsg).Lock.PopFront.Unlock).log := by
    simp [Unlock, PopFront, Lock, note, List.append_assoc]
  cases abort with
  | false => exact hremoved
  | true => exact hremoved.trans (prefix_note _ _)

theorem prefix_endFailed (abort : Bool) : sf.log <+: (sf.endFailed w cxt abort).log :=
  (sf.prefix_note cxt.closing).trans ((prefix_callDownload (sf.closeFront cxt) cxt _ _).trans
    (sf.prefix_endFailed_called w cxt abort))

theorem prefix_download (res : ℤ) (errMsg : String) :
    sf.log <+: (sf.download w res errMsg).log := by
  have hlocked := sf.prefix_note [.Lock]
  unfold download
  dsimp only
  cases sf.Lock.m_vContext with
  | nil => exact hlocked.trans ((prefix_note sf.Lock [.Unlock]).trans (prefix_postProcessing _ w))
  | cons cxt _ =>
    dsimp only
    have hunlocked := hlocked.trans
      (prefix_note (sf.Lock.setFront (cxt.failing res errMsg)) [.Unlock])
    exact hunlocked.trans ((prefix_callDownload _ _ _ _).trans
      ((prefix_remove _ _).trans (prefix_postProcessing _ w)))

theorem prefix_startDownloading (fileSize : ℕ) (localFile remoteFile : String) (flags : ℕ)
    (initSize : ℤ) :
    sf.log <+: (sf.startDownloading w fileSize localFile remoteFile flags initSize).log := by
  unfold startDownloading
  dsimp only
  generalize hpushed : (if sf.Lock.m_vContext = [] then
    sf.Lock.PushBack (started w localFile remoteFile flags initSize) else sf.Lock) = pushed
  have hprefix : sf.log <+: pushed.Unlock.log := by
    refine List.IsPrefix.trans ?_ (prefix_note _ _)
    rw [← hpushed]
    split_ifs
    · exact (sf.prefix_note _).trans (prefix_note _ [.change])
    · exact sf.prefix_note _
  split
  · exact hprefix
  · split
    · exact hprefix.trans (prefix_note _ [.panic])
    · split_ifs <;> exact hprefix

theorem prefix_downloading (bytes : Content) : sf.log <+: (sf.downloading bytes).log := by
  have hlocked := sf.prefix_note [.Lock]
  unfold downloading
  dsimp only
  cases sf.Lock.m_vContext with
  | nil => exact hlocked.trans (prefix_note _ _)
  | cons cxt _ =>
    dsimp only
    cases (cxt.Write bytes).File with
    | none => exact hlocked.trans (prefix_note _ [.panic])
    | some f =>
      dsimp only
      have hunlocked := hlocked.trans (prefix_note (sf.Lock.setFront (cxt.Write bytes)) [.Unlock])
      split_ifs
      · exact hunlocked.trans (prefix_note _ _)
      · exact hunlocked

theorem prefix_upload (res : ℤ) (errMsg : String) (initSize : ℤ) :
    sf.log <+: (sf.upload w res errMsg initSize).log := by
  have hlocked := sf.prefix_note [.Lock]
  unfold upload
  dsimp only
  cases sf.Lock.m_vContext with
  | nil => exact hlocked.trans (prefix_note _ _)
  | cons cxt _ =>
    dsimp only
    split_ifs
    · exact hlocked.trans ((prefix_note _ [.Unlock]).trans (prefix_endFailed _ _ _ _))
    · exact hlocked.trans ((prefix_note _ (beginUpload w _).2).trans
        ((prefix_endFailed _ _ _ _).trans (prefix_note _ _)))
    · exact hlocked.trans ((prefix_note _ (beginUpload w _).2).trans (prefix_note _ _))

theorem prefix_uploading (uploaded res : ℤ) (errMsg : String) :
    sf.log <+: (sf.uploading w uploaded res errMsg).log := by
  have hlocked := sf.prefix_note [.Lock]
  unfold uploading
  dsimp only
  cases sf.Lock.m_vContext with
  | nil => exact hlocked.trans (prefix_note _ _)
  | cons cxt _ =>
    dsimp only
    have hsent := hlocked.trans ((prefix_note _ (acknowledged w uploaded res errMsg cxt).2.1).trans
      (prefix_note _ [.Unlock]))
    split_ifs
    · exact hsent.trans (prefix_endFailed _ _ _ _)
    · exact hsent.trans (prefix_note _ _)
    · exact hsent

theorem prefix_uploadCompleted : sf.log <+: (sf.uploadCompleted w).log := by
  have hunlocked := (sf.prefix_note [.Lock]).trans (prefix_note sf.Lock [.Unlock])
  unfold uploadCompleted
  dsimp only
  cases sf.Lock.m_vContext with
  | nil => exact hunlocked.trans (prefix_postProcessing _ w)
  | cons cxt _ =>
    dsimp only
    split_ifs
    · exact hunlocked.trans ((prefix_callDownload _ _ _ _).trans
        ((prefix_remove _ _).trans (prefix_postProcessing _ w)))
    · refine hunlocked.trans (List.IsPrefix.trans ?_ (prefix_postProcessing _ w))
      exact List.prefix_rfl

/-- **A call adds to the log.** -/
theorem prefix_requestProcessed (reply : Reply) : sf.log <+: (sf.requestProcessed w reply).log := by
  cases reply with
  | Download res errMsg => exact sf.prefix_download w res errMsg
  | StartDownloading fileSize localFile remoteFile flags initSize =>
    exact sf.prefix_startDownloading w fileSize localFile remoteFile flags initSize
  | Downloading bytes => exact sf.prefix_downloading bytes
  | UploadBackup => exact List.prefix_rfl
  | Upload res errMsg initSize => exact sf.prefix_upload w res errMsg initSize
  | Uploading uploaded res errMsg => exact sf.prefix_uploading w uploaded res errMsg
  | UploadCompleted => exact sf.prefix_uploadCompleted w
  | other => exact List.prefix_rfl

end CStreamingFile

theorem requests_append (log log' : List Event) :
    requests (log ++ log') = requests log ++ requests log' := List.filterMap_append

theorem callbacks_append (log log' : List Event) :
    callbacks (log ++ log') = callbacks log ++ callbacks log' := List.filterMap_append

/-- The first callback is the first for good. -/
theorem callback_of_prefix {log log' : List Event} (h : log <+: log') {e : ℤ × String}
    (he : (callbacks log).head? = some e) : (callbacks log').head? = some e := by
  obtain ⟨more, rfl⟩ := h
  rw [callbacks_append, List.head?_append, he]
  rfl

theorem request_of_prefix {log log' : List Event} (h : log <+: log') {r : Request}
    (hr : r ∈ requests log) : r ∈ requests log' := by
  obtain ⟨more, rfl⟩ := h
  rw [requests_append]
  exact List.mem_append_left _ hr

/-! ### The answer to `Upload` -/

section Begin

variable {w : World}

/-- The chunks as requests that have been sent. -/
def sentChunks (chunks : List Content) : List Event :=
  chunks.map fun chunk ↦ .SendRequest (.Uploading chunk) true

theorem requests_sentChunks (chunks : List Content) :
    requests (sentChunks chunks) = chunks.map .Uploading := by
  induction chunks with
  | nil => rfl
  | cons chunk chunks ih => exact congrArg (Request.Uploading chunk :: ·) ih

theorem callbacks_sentChunks (chunks : List Content) : callbacks (sentChunks chunks) = [] := by
  induction chunks with
  | nil => rfl
  | cons chunk chunks ih => exact ih

/-- **The first loop** loses nothing of the file, and a short read is one at its end. -/
theorem sendLoop_sent (hw : ∀ k, (w.chunk k).sent = true) (k : ℕ) (cxt : CContext) :
    ∃ chunks m, (sendLoop w k cxt).1 = cxt.advance m ∧
      (sendLoop w k cxt).2.1 = sentChunks chunks ∧
      chunks.flatten ++ (cxt.advance m).unread = cxt.unread ∧
      ((sendLoop w k cxt).2.2 < STREAM_CHUNK_SIZE → (cxt.advance m).unread = []) := by
  fun_induction sendLoop w k cxt with
  | case1 k cxt err cxt' hread =>
    obtain ⟨hend, rfl⟩ := cxt.Read_error hread
    exact ⟨[], 0, by simp, rfl, by simp, fun _ ↦ by simpa using hend⟩
  | case2 k cxt bytes read hread sending hstop =>
    have hdrop := cxt.unread_of_Read_ok hread
    obtain ⟨-, rfl, rfl⟩ := cxt.Read_ok hread
    refine ⟨[cxt.unread.take STREAM_CHUNK_SIZE], _, CContext.answered_of_sent _ (hw k), ?_, ?_, ?_⟩
    · simp only [sentChunks, List.map_cons, List.map_nil, sending, hw k]
    · rw [hdrop, List.flatten_singleton, List.take_append_drop]
    · intro hshort
      rw [List.length_take, min_lt_iff] at hshort
      rw [hdrop, List.drop_of_length_le (hshort.resolve_left (lt_irrefl _)).le]
  | case3 k cxt bytes read hread sending hgo last events n heq ih =>
    have hdrop := cxt.unread_of_Read_ok hread
    obtain ⟨-, rfl, rfl⟩ := cxt.Read_ok hread
    obtain ⟨chunks, m, hlast, hevents, hall, hend⟩ := ih
    rw [heq] at hlast hevents hend
    rw [CContext.advance_advance] at hlast hall hend
    refine ⟨cxt.unread.take STREAM_CHUNK_SIZE :: chunks, _, hlast, ?_, ?_, hend⟩
    · simp only [sentChunks, List.map_cons, sending, hw k]
      exact congrArg _ hevents
    · rw [List.flatten_cons, List.append_assoc, hall, hdrop, List.take_append_drop]

/-- A context of an upload that goes on. -/
structure CContext.Ready (c : CContext) : Prop where
  isOpen : c.IsOpen = true
  callback : c.Download = true
  noError : c.HasError = false

theorem requests_backup (hw : w.backup = true) (cxt : CContext) :
    (∀ r ∈ requests (backup w cxt), r.isBackup = true) ∧ callbacks (backup w cxt) = [] := by
  unfold backup
  split_ifs
  · rw [hw]
    exact ⟨by simp [requests, Event.request, Request.ofUpload, Request.isBackup], rfl⟩
  · exact ⟨by simp [requests], rfl⟩

theorem requests_complete (hw : w.completed.sent = true) (cxt : CContext) :
    requests (complete w cxt).2 = [.UploadCompleted []] ∧ callbacks (complete w cxt).2 = [] := by
  unfold complete
  rw [hw]
  split_ifs <;> exact ⟨rfl, rfl⟩

/-- What has been sent when `UploadCompleted` was sent by the first loop. -/
structure AllSent (file : Content) (requests : List Request) : Prop where
  split : ∃ (backups : List Request) (chunks : List Content),
    (∀ r ∈ backups, r.isBackup = true) ∧ chunks.flatten = file ∧
      requests = backups ++ chunks.map .Uploading ++ [.UploadCompleted []]

/-- `UploadCompleted` has not been sent. -/
def NotCompleted (requests : List Request) : Prop :=
  ∀ payload, .UploadCompleted payload ∉ requests

/-- **The branch of `Upload`**, behind an accepted upload: if no full chunk has filled the sending
buffer, everything has been sent. -/
theorem beginUpload_sends (hw : w.Sends) {cxt : CContext} (hready : cxt.Ready)
    (hsent : cxt.Sent = false) :
    (beginUpload w cxt).1.Ready ∧ callbacks (beginUpload w cxt).2 = [] ∧
      (SendsFrom w 0 (cxt.unread.length / STREAM_CHUNK_SIZE) →
        (beginUpload w cxt).1.Sent = true ∧ AllSent cxt.unread (requests (beginUpload w cxt).2)) ∧
      (¬ SendsFrom w 0 (cxt.unread.length / STREAM_CHUNK_SIZE) →
        (beginUpload w cxt).1.Sent = false ∧ NotCompleted (requests (beginUpload w cxt).2)) := by
  obtain ⟨hbackups, hquiet⟩ := requests_backup hw.backup { cxt with QueueOk := w.StartJob }
  obtain ⟨chunks, m, hlast, hevents, hall, hend⟩ :=
    sendLoop_sent hw.chunk 0 { cxt with QueueOk := w.StartJob }
  have hshort : (sendLoop w 0 { cxt with QueueOk := w.StartJob }).2.2 < STREAM_CHUNK_SIZE ↔
      SendsFrom w 0 (cxt.unread.length / STREAM_CHUNK_SIZE) := (sendLoop_spec w 0 _).2
  unfold beginUpload
  dsimp only
  generalize sendLoop w 0 { cxt with QueueOk := w.StartJob } = sent at *
  obtain ⟨cxt', events, n⟩ := sent
  dsimp only at hlast hevents hshort hend ⊢
  subst hlast hevents
  have hnoError : ({ cxt with QueueOk := w.StartJob }.advance m).HasError = false :=
    hready.noError
  have hopen : ({ cxt with QueueOk := w.StartJob }.advance m).IsOpen = true := by
    have hopen := hready.isOpen
    unfold CContext.IsOpen at hopen ⊢
    simpa [CContext.advance] using hopen
  have hbegun : requests (.StartJob :: backup w { cxt with QueueOk := w.StartJob } ++
        sentChunks chunks) =
      requests (backup w { cxt with QueueOk := w.StartJob }) ++ chunks.map .Uploading := by
    rw [requests_append, requests_sentChunks]
    rfl
  have hsilent : callbacks (.StartJob :: backup w { cxt with QueueOk := w.StartJob } ++
      sentChunks chunks) = [] := by
    rw [callbacks_append, callbacks_sentChunks, List.append_nil]
    exact hquiet
  rw [← hshort]
  by_cases hlt : n < STREAM_CHUNK_SIZE
  · rw [if_pos ⟨by simp [hnoError], hlt⟩]
    obtain ⟨hcompleted, hcalls⟩ :=
      requests_complete hw.completed ({ cxt with QueueOk := w.StartJob }.advance m)
    have hanswered : (complete w ({ cxt with QueueOk := w.StartJob }.advance m)).1 =
        { ({ cxt with QueueOk := w.StartJob }.advance m) with Sent := true } :=
      CContext.answered_of_sent _ hw.completed
    rw [hanswered, callbacks_append, requests_append, hbegun, hsilent, hcompleted, hcalls]
    refine ⟨⟨hopen, hready.callback, hnoError⟩, rfl, fun _ ↦ ⟨rfl, ⟨_, chunks, hbackups, ?_, rfl⟩⟩,
      fun hnot ↦ absurd hlt hnot⟩
    rw [hend hlt, List.append_nil] at hall
    exact hall
  · rw [if_neg fun h ↦ hlt h.2, hbegun, hsilent]
    refine ⟨⟨hopen, hready.callback, hnoError⟩, rfl, fun h ↦ absurd h hlt, fun _ ↦ ⟨hsent, ?_⟩⟩
    intro payload hmem
    rcases List.mem_append.1 hmem with hmem | hmem
    · exact Bool.false_ne_true (hbackups _ hmem)
    · simp at hmem

end Begin

/-! ### `postProcessing` sends nothing for an upload under way -/

section PostProcessing

variable (w : World)

theorem requests_startContext (n : ℕ) (it : CContext) :
    requests (startContext w n it).2.1 = [] := by
  have hstart (opened : CContext) (r : Request) (turn : Turn) (hr : r.ofUpload = false) :
      requests (sendStart w n opened r turn).2.1 = [] := by
    unfold sendStart
    split_ifs <;> simp [requests, Event.request, hr]
  unfold startContext
  split_ifs
  iterate 3 exact rfl
  iterate 2 exact hstart _ _ _ rfl

theorem requests_startLoop (max : ℕ) (queue : List CContext) :
    ∀ n d, requests (startLoop w max n d queue).2 = [] := by
  induction queue with
  | nil => exact fun _ _ ↦ rfl
  | cons it rest ih =>
    intro n d
    rw [startLoop]
    have hit := requests_startContext w n it
    generalize startContext w n it = started at *
    obtain ⟨it', events, turn⟩ := started
    split_ifs
    · rfl
    · cases turn with
      | stop => exact hit
      | go downloads => exact (requests_append _ _).trans (by rw [hit, ih, List.nil_append])

theorem requests_closing (cxt : CContext) : requests cxt.closing = [] := by
  unfold CContext.closing
  split_ifs <;> rfl

theorem requests_popLoop (queue : List CContext) : requests (popLoop queue).2.1 = [] := by
  induction queue with
  | nil => rfl
  | cons it rest ih =>
    rw [popLoop]
    split_ifs
    · exact (requests_append _ _).trans (by
        rw [requests_append, requests_closing, ih]; rfl)
    · exact (requests_append _ _).trans (by
        rw [requests_append, requests_closing, ih]; rfl)
    · rfl

theorem requests_postProcessing (sf : CStreamingFile) :
    requests (sf.postProcessing w).log = requests sf.log := by
  obtain ⟨events, hlog, rfl⟩ := sf.log_postProcessing w
  have hlocks (n : ℕ) : requests (List.replicate n .Lock) = [] := by
    induction n with
    | zero => rfl
    | succ n ih => exact ih
  rw [hlog, requests_append, requests_append, requests_append, requests_append, requests_append,
    requests_startLoop, requests_popLoop, hlocks]
  exact List.append_nil _

end PostProcessing

/-! ### Everything has been sent -/

/-- Until `UploadCompleted` is answered, with `d` answers before it. -/
structure Completed (file : Content) (d : ℕ) (s : Session) : Prop where
  front : ∃ cxt rest, s.sf.m_vContext = cxt :: rest ∧ cxt.Ready ∧ cxt.Sent = true
  silent : callbacks s.sf.log = []
  sent : AllSent file (requests s.sf.log)
  left : ∃ before, requests s.sf.log = before ++ [.UploadCompleted []] ∧ NotCompleted before ∧
    s.answered + d = before.length

/-- The branch of `Uploading`, with a context at the front. -/
theorem uploading_eq {sf : CStreamingFile} {cxt cxt' : CContext} {rest : List CContext}
    (hqueue : sf.m_vContext = cxt :: rest) {w : World} {uploaded : ℕ} {events : List Event}
    {noted : Bool} (h : acknowledged w uploaded 0 "" cxt = (cxt', events, noted)) :
    sf.uploading w uploaded 0 "" =
      if noted = true ∧ cxt'.HasError = true then
        CStreamingFile.endFailed
          ⟨cxt' :: rest, sf.m_maxDownloading, sf.log ++ .Lock :: events ++ [.Unlock]⟩ w cxt' false
      else
        ⟨cxt' :: rest, sf.m_maxDownloading, sf.log ++ .Lock :: events ++ .Unlock ::
          if cxt'.Transferring then [.Transferring uploaded] else []⟩ := by
  unfold CStreamingFile.uploading
  simp only [CStreamingFile.m_vContext_Lock, hqueue, h]
  have hunlocked : ((sf.Lock.note events).setFront cxt').Unlock =
      ⟨cxt' :: rest, sf.m_maxDownloading, sf.log ++ .Lock :: events ++ [.Unlock]⟩ := by
    simp [CStreamingFile.Unlock, CStreamingFile.Lock, CStreamingFile.note,
      CStreamingFile.setFront, hqueue]
  rw [hunlocked]
  split_ifs
  · rfl
  · simp [CStreamingFile.note]
  · rfl

theorem acknowledged_eq (w : World) (uploaded : ℕ) (cxt : CContext) :
    acknowledged w uploaded 0 "" cxt =
      if cxt.Sent = true then (cxt, [], false) else sendNext w cxt := by
  have hok : ¬ ((uploaded : ℤ) < 0 ∨ (0 : ℤ) ≠ 0 ∨ "" ≠ "") := by
    simp only [ne_eq, not_true_eq_false, or_false]
    omega
  rw [acknowledged, if_neg hok, ite_not]

theorem uploading_sent {sf : CStreamingFile} {cxt : CContext} {rest : List CContext}
    (hqueue : sf.m_vContext = cxt :: rest) (hsent : cxt.Sent = true) (w : World) (uploaded : ℕ) :
    ∃ events, sf.uploading w uploaded 0 "" = sf.note events ∧ requests events = [] ∧
      callbacks events = [] := by
  have hacknowledged : acknowledged w uploaded 0 "" cxt = (cxt, [], false) := by
    rw [acknowledged_eq, if_pos hsent]
  rw [uploading_eq hqueue hacknowledged, if_neg (by simp), ← hqueue]
  split_ifs
  · exact ⟨[.Lock, .Unlock, .Transferring uploaded], by simp [CStreamingFile.note], rfl, rfl⟩
  · exact ⟨[.Lock, .Unlock], by simp [CStreamingFile.note], rfl, rfl⟩

theorem requestProcessed_sent {sf : CStreamingFile} {cxt : CContext} {rest : List CContext}
    (hqueue : sf.m_vContext = cxt :: rest) (hsent : cxt.Sent = true) (w : World) (uploaded : ℕ)
    {r : Request} (hr : ∀ payload, r ≠ .UploadCompleted payload) :
    ∃ events, sf.requestProcessed w (answerTo uploaded r) = sf.note events ∧
      requests events = [] ∧ callbacks events = [] := by
  have hnothing : ∃ events, sf = sf.note events ∧ requests events = [] ∧ callbacks events = [] :=
    ⟨[], by rw [CStreamingFile.note, List.append_nil], rfl, rfl⟩
  cases r with
  | Download => exact hnothing
  | Upload => exact hnothing
  | Uploading chunk => exact uploading_sent hqueue hsent w uploaded
  | UploadCompleted payload => exact absurd rfl (hr payload)
  | UploadBackup => exact hnothing

/-- The oldest request that is not answered. -/
theorem answerNext_eq {s : Session} {before after : List Request} {r : Request}
    (hrequests : requests s.sf.log = before ++ r :: after) (hanswered : s.answered = before.length)
    (w : World) (uploaded : ℕ) :
    s.answerNext w uploaded =
      ⟨s.sf.requestProcessed w (answerTo uploaded r), s.answered + 1⟩ := by
  have hawaiting : s.awaiting = r :: after := by
    rw [Session.awaiting, hrequests, hanswered, List.drop_left]
  rw [Session.answerNext, hawaiting]

/-- **An answer before the last.** -/
theorem Completed.step {file : Content} {d : ℕ} {s : Session} (h : Completed file (d + 1) s)
    (w : World) (uploaded : ℕ) : Completed file d (s.answerNext w uploaded) := by
  obtain ⟨⟨cxt, rest, hqueue, hready, hsent⟩, hsilent, hall, before, hrequests, hnot, hleft⟩ := h
  obtain ⟨answered, r, more, hsplit, hlength⟩ :
      ∃ answered r more, before = answered ++ r :: more ∧ s.answered = answered.length := by
    refine ⟨before.take s.answered, before[s.answered], before.drop (s.answered + 1), ?_, ?_⟩
    · rw [← List.drop_eq_getElem_cons, List.take_append_drop]
    · rw [List.length_take]
      omega
  have hr (payload : Content) : r ≠ .UploadCompleted payload := by
    rintro rfl
    exact hnot payload (by simp [hsplit])
  obtain ⟨events, hprocessed, hnone, hcalls⟩ := requestProcessed_sent hqueue hsent w uploaded hr
  have holdest : requests s.sf.log = answered ++ r :: (more ++ [.UploadCompleted []]) := by
    rw [hrequests, hsplit, List.append_assoc, List.cons_append]
  rw [answerNext_eq holdest hlength, hprocessed]
  have hrequests' : requests (s.sf.note events).log = requests s.sf.log := by
    rw [CStreamingFile.note, requests_append, hnone, List.append_nil]
  refine ⟨⟨cxt, rest, hqueue, hready, hsent⟩, ?_, ?_, before, ?_, hnot, ?_⟩
  · rw [CStreamingFile.note, callbacks_append, hcalls, List.append_nil]
    exact hsilent
  · rw [hrequests']
    exact hall
  · rw [hrequests']
    exact hrequests
  · dsimp only
    omega

/-- **The last answer.** -/
theorem Completed.finish {file : Content} {s : Session} (h : Completed file 0 s) (w : World)
    (uploaded : ℕ) :
    (s.answerNext w uploaded).awaiting = [] ∧
      Delivered file (s.answerNext w uploaded).sf.log := by
  obtain ⟨⟨cxt, rest, hqueue, hready, hsent⟩, hsilent, hall, before, hrequests, hnot, hleft⟩ := h
  rw [answerNext_eq hrequests hleft]
  have hprocessed : s.sf.requestProcessed w (answerTo uploaded (.UploadCompleted [])) =
      ((((s.sf.note [.Lock, .Unlock, .Download 0 ""]).Lock.closeFront cxt).PopFront).Unlock
        ).postProcessing w := by
    have hcalled : s.sf.Lock.Unlock.callDownload cxt 0 "" =
        s.sf.note [.Lock, .Unlock, .Download 0 ""] := by
      rw [CStreamingFile.callDownload, if_pos hready.callback]
      simp [CStreamingFile.Lock, CStreamingFile.Unlock, CStreamingFile.note, List.append_assoc]
    rw [answerTo, CStreamingFile.requestProcessed, CStreamingFile.uploadCompleted]
    simp only [CStreamingFile.m_vContext_Lock, hqueue, if_pos hready.isOpen, hcalled]
  have hafter : requests (s.sf.requestProcessed w (answerTo uploaded (.UploadCompleted []))).log =
      requests s.sf.log := by
    rw [hprocessed, requests_postProcessing]
    simp only [CStreamingFile.Unlock, CStreamingFile.PopFront, CStreamingFile.closeFront,
      CStreamingFile.setFront, CStreamingFile.Lock, CStreamingFile.note, requests_append,
      requests_closing]
    simp [requests, Event.request]
  refine ⟨?_, ⟨?_, ?_⟩⟩
  · rw [Session.awaiting, hafter, hrequests]
    refine List.drop_of_length_le ?_
    rw [List.length_append, List.length_singleton]
    exact Nat.succ_le_succ hleft.ge
  · obtain ⟨backups, chunks, hbackups, hfile, heq⟩ := hall
    refine ⟨chunks, ?_, hfile⟩
    have hnone : backups.filter (!·.isBackup) = [] :=
      List.filter_eq_nil_iff.2 fun r hr ↦ by simp [hbackups r hr]
    have hchunks : (chunks.map Request.Uploading).filter (!·.isBackup) = chunks.map .Uploading :=
      List.filter_eq_self.2 fun r hr ↦ by
        obtain ⟨chunk, -, rfl⟩ := List.mem_map.1 hr
        rfl
    rw [hafter, heq, List.filter_append, List.filter_append, hnone, hchunks, List.nil_append]
    rfl
  · -- the callback comes before anything that the rest of the queue calls
    have hprefix : (s.sf.note [.Lock, .Unlock, .Download 0 ""]).log <+:
        (s.sf.requestProcessed w (answerTo uploaded (.UploadCompleted []))).log := by
      rw [hprocessed]
      exact (CStreamingFile.prefix_remove _ _).trans (CStreamingFile.prefix_postProcessing _ w)
    have hcalls : callbacks (s.sf.note [.Lock, .Unlock, .Download 0 ""]).log = [(0, "")] := by
      rw [CStreamingFile.note, callbacks_append, hsilent]
      rfl
    exact callback_of_prefix hprefix (by rw [hcalls]; rfl)

/-! ### The first loop has stopped before the end -/

/-- `UploadCompleted` is still to be sent. -/
structure Unfinished (sf : CStreamingFile) : Prop where
  front : ∃ cxt rest, sf.m_vContext = cxt :: rest ∧ cxt.Download = true ∧ cxt.Sent = false
  silent : callbacks sf.log = []
  notCompleted : NotCompleted (requests sf.log)

/-- A callback with an error has come first, or `UploadCompleted` has been sent with bytes. -/
def Spoilt (sf : CStreamingFile) : Prop :=
  (∃ e, (callbacks sf.log).head? = some e ∧ e ≠ (0, "")) ∨
    ∃ payload, payload ≠ [] ∧ Request.UploadCompleted payload ∈ requests sf.log

theorem Unfinished.not_delivered {sf : CStreamingFile} (h : Unfinished sf) (file : Content) :
    ¬ Delivered file sf.log := by
  rintro ⟨⟨chunks, hrequests, -⟩, -⟩
  have hmem : Request.UploadCompleted [] ∈ (requests sf.log).filter (!·.isBackup) := by
    rw [hrequests]
    exact List.mem_append_right _ (List.mem_singleton_self _)
  exact h.notCompleted [] (List.mem_of_mem_filter hmem)

theorem Spoilt.not_delivered {sf : CStreamingFile} (h : Spoilt sf) (file : Content) :
    ¬ Delivered file sf.log := by
  rintro ⟨⟨chunks, hrequests, -⟩, hcallback⟩
  rcases h with ⟨e, he, hne⟩ | ⟨payload, hne, hmem⟩
  · exact hne (Option.some.inj (he.symm.trans hcallback))
  · have hmem' : Request.UploadCompleted payload ∈ (requests sf.log).filter (!·.isBackup) :=
      List.mem_filter.2 ⟨hmem, rfl⟩
    rw [hrequests] at hmem'
    simp [hne] at hmem'

theorem Spoilt.step {sf : CStreamingFile} (h : Spoilt sf) (w : World) (reply : Reply) :
    Spoilt (sf.requestProcessed w reply) := by
  have hprefix := sf.prefix_requestProcessed w reply
  rcases h with ⟨e, he, hne⟩ | ⟨payload, hne, hmem⟩
  · exact .inl ⟨e, callback_of_prefix hprefix he, hne⟩
  · exact .inr ⟨payload, hne, request_of_prefix hprefix hmem⟩

theorem callbacks_closing (cxt : CContext) : callbacks cxt.closing = [] := by
  unfold CContext.closing
  split_ifs <;> rfl

/-- The upload is ended with an error. -/
theorem spoilt_endFailed {sf : CStreamingFile} {cxt : CContext} (hsilent : callbacks sf.log = [])
    (hcall : cxt.Download = true) (herror : cxt.HasError = true) (w : World) (abort : Bool) :
    Spoilt (sf.endFailed w cxt abort) := by
  refine .inl ⟨(cxt.ErrCode, cxt.ErrMsg),
    callback_of_prefix (sf.prefix_endFailed_called w cxt abort) ?_, ?_⟩
  · have hcalls : callbacks ((sf.closeFront cxt).callDownload cxt cxt.ErrCode cxt.ErrMsg).log =
        callbacks sf.log ++ callbacks cxt.closing ++ [(cxt.ErrCode, cxt.ErrMsg)] := by
      rw [CStreamingFile.callDownload, if_pos hcall, ← callbacks_append]
      exact callbacks_append _ _
    rw [hcalls, hsilent, callbacks_closing]
    rfl
  · intro hok
    obtain ⟨hcode, hmsg⟩ := Prod.mk.inj hok
    rw [CContext.HasError, hcode, hmsg] at herror
    simp at herror

/-- **An answer to a chunk** sends the next one, or spoils the upload: the end of the file is taken
for an error, and a short chunk goes out once more with `UploadCompleted`. -/
theorem Unfinished.uploading {sf : CStreamingFile} (h : Unfinished sf) {w : World} (hw : w.Sends)
    (uploaded : ℕ) :
    Unfinished (sf.uploading w uploaded 0 "") ∨ Spoilt (sf.uploading w uploaded 0 "") := by
  obtain ⟨⟨cxt, rest, hqueue, hcall, hsent⟩, hsilent, hnot⟩ := h
  have hacknowledged : acknowledged w uploaded 0 "" cxt = sendNext w cxt := by
    rw [acknowledged_eq, if_neg (by simp [hsent])]
  by_cases hend : cxt.unread = []
  · obtain ⟨err, hread⟩ := cxt.Read_end hend
    generalize hfailed : cxt.failing CANNOT_OPEN_LOCAL_FILE_FOR_READING err = failed
    have herror : failed.HasError = true := by
      rw [← hfailed]
      exact CContext.HasError_failing.2 (.inl (by decide))
    have hnext : sendNext w cxt = (failed, [], true) := by
      rw [sendNext, hread, ← hfailed]
    rw [uploading_eq hqueue (hacknowledged.trans hnext), if_pos ⟨rfl, herror⟩]
    refine .inr (spoilt_endFailed ?_ (by rw [← hfailed]; exact hcall) herror w false)
    rw [callbacks_append, callbacks_append, hsilent]
    rfl
  · generalize hbytes : cxt.unread.take STREAM_CHUNK_SIZE = bytes
    have hne : bytes ≠ [] := by
      rw [← hbytes]
      simpa [STREAM_CHUNK_SIZE] using hend
    by_cases hshort : bytes.length < STREAM_CHUNK_SIZE
    · have hnext : sendNext w cxt = ({ cxt.advance bytes.length with Sent := true },
          [.SendRequest (.Uploading bytes) true, .SendRequest (.UploadCompleted bytes) true],
          false) := by
        rw [sendNext, cxt.Read_chunk hend, hbytes]
        simp only [if_pos hshort, CContext.answered_of_sent _ (hw.chunk 0),
          CContext.answered_of_sent _ hw.completed, hw.chunk, hw.completed, not_true_eq_false,
          or_self, decide_false]
      rw [uploading_eq hqueue (hacknowledged.trans hnext), if_neg (by simp)]
      refine .inr (.inr ⟨bytes, hne, ?_⟩)
      rw [requests_append, requests_append]
      exact List.mem_append_left _ (List.mem_append_right _ (by
        simp [requests, Event.request, Request.ofUpload]))
    · have hnext : sendNext w cxt = (cxt.advance bytes.length,
          [.SendRequest (.Uploading bytes) true], false) := by
        rw [sendNext, cxt.Read_chunk hend, hbytes]
        simp only [if_neg hshort, CContext.answered_of_sent _ (hw.chunk 0), hw.chunk,
          not_true_eq_false, decide_false]
      rw [uploading_eq hqueue (hacknowledged.trans hnext), if_neg (by simp)]
      refine .inl ⟨⟨_, rest, rfl, hcall, hsent⟩, ?_, ?_⟩
      · rw [callbacks_append, callbacks_append, hsilent]
        split_ifs <;> rfl
      · intro payload hmem
        rw [requests_append, requests_append] at hmem
        rcases List.mem_append.1 hmem with hmem | hmem
        · rcases List.mem_append.1 hmem with hmem | hmem
          · exact hnot payload hmem
          · simp [requests, Event.request, Request.ofUpload] at hmem
        · split_ifs at hmem <;> simp [requests, Event.request] at hmem

/-- **An answer to any request** of such an upload. -/
theorem Unfinished.step {s : Session} (h : Unfinished s.sf) {w : World} (hw : w.Sends)
    (uploaded : ℕ) :
    Unfinished (s.answerNext w uploaded).sf ∨ Spoilt (s.answerNext w uploaded).sf := by
  unfold Session.answerNext
  cases hawaiting : s.awaiting with
  | nil => exact .inl h
  | cons r more =>
    have hmem : r ∈ requests s.sf.log :=
      List.mem_of_mem_drop (by rw [← Session.awaiting, hawaiting]; exact List.mem_cons_self)
    cases r with
    | Uploading chunk => exact h.uploading hw uploaded
    | UploadCompleted payload => exact absurd hmem (h.notCompleted payload)
    | Download => exact .inl h
    | Upload => exact .inl h
    | UploadBackup => exact .inl h

theorem Spoilt.answerNext {s : Session} (h : Spoilt s.sf) (w : World) (uploaded : ℕ) :
    Spoilt (s.answerNext w uploaded).sf := by
  unfold Session.answerNext
  cases s.awaiting with
  | nil => exact h
  | cons r more => exact h.step w _

/-- The branch of `Upload`, when the server has accepted and no error is left. -/
theorem upload_eq {sf : CStreamingFile} {cxt : CContext} {rest : List CContext}
    (hqueue : sf.m_vContext = cxt :: rest) {w : World} {initSize : ℤ}
    (h : (beginUpload w { cxt with InitSize := initSize }).1.HasError = false) :
    sf.upload w 0 "" initSize =
      ⟨(beginUpload w { cxt with InitSize := initSize }).1 :: rest, sf.m_maxDownloading,
        sf.log ++ .Lock :: (beginUpload w { cxt with InitSize := initSize }).2 ++ [.Unlock]⟩ := by
  unfold CStreamingFile.upload
  simp only [CStreamingFile.m_vContext_Lock, hqueue, ne_eq, not_true_eq_false, or_self, if_false,
    h, Bool.false_eq_true]
  simp [CStreamingFile.Unlock, CStreamingFile.Lock, CStreamingFile.note, CStreamingFile.setFront,
    hqueue]

/-! ### The run -/

section Course

variable (course : Course) (c : CContext) (file : Content) (rest : List CContext) (max : ℕ)

/-- Behind the answer to `Upload`. -/
theorem session_zero (hw : (course.worlds 0).Sends) :
    ((∀ k < file.length / STREAM_CHUNK_SIZE,
        (course.worlds 0).bytesInSendingBuffer k ≤ 40 * STREAM_CHUNK_SIZE) →
      ∃ d, Completed file d (course.session (uploadOf c file rest max) 0)) ∧
    ((¬ ∀ k < file.length / STREAM_CHUNK_SIZE,
        (course.worlds 0).bytesInSendingBuffer k ≤ 40 * STREAM_CHUNK_SIZE) →
      Unfinished (course.session (uploadOf c file rest max) 0).sf) := by
  generalize hcxt : ({ opened c file with InitSize := course.initSize } : CContext) = cxt
  have hready : cxt.Ready := by
    rw [← hcxt]
    exact ⟨rfl, rfl, rfl⟩
  have hunread : cxt.unread = file := by
    rw [← hcxt]
    exact List.drop_zero
  have hrooms : SendsFrom (course.worlds 0) 0 (file.length / STREAM_CHUNK_SIZE) ↔
      ∀ k < file.length / STREAM_CHUNK_SIZE,
        (course.worlds 0).bytesInSendingBuffer k ≤ 40 * STREAM_CHUNK_SIZE := by
    simp only [SendsFrom, hw.chunk, true_and, Nat.zero_add]
  obtain ⟨hbegun, hsilent, hall, hsome⟩ :=
    beginUpload_sends hw hready (show cxt.Sent = false by rw [← hcxt]; rfl)
  rw [hunread, hrooms] at hall hsome
  have hsession : course.session (uploadOf c file rest max) 0 =
      ⟨⟨(beginUpload (course.worlds 0) cxt).1 :: rest, max,
        .Lock :: (beginUpload (course.worlds 0) cxt).2 ++ [.Unlock]⟩, 0⟩ := by
    subst hcxt
    exact congrArg (Session.mk · 0) (@upload_eq (uploadOf c file rest max) (opened c file) rest rfl
      (course.worlds 0) course.initSize hbegun.noError)
  have hrequests : requests (.Lock :: (beginUpload (course.worlds 0) cxt).2 ++ [.Unlock]) =
      requests (beginUpload (course.worlds 0) cxt).2 :=
    (requests_append _ _).trans (List.append_nil _)
  have hcallbacks : callbacks (.Lock :: (beginUpload (course.worlds 0) cxt).2 ++ [.Unlock]) = [] :=
    (callbacks_append _ _).trans ((List.append_nil _).trans hsilent)
  rw [hsession]
  refine ⟨fun hroom ↦ ?_, fun hnot ↦ ?_⟩
  · obtain ⟨hsent, backups, chunks, hbackups, hfile, heq⟩ := hall hroom
    refine ⟨(backups ++ chunks.map Request.Uploading).length, ⟨_, rest, rfl, hbegun, hsent⟩,
      hcallbacks, ⟨backups, chunks, hbackups, hfile, hrequests.trans heq⟩,
      backups ++ chunks.map .Uploading, hrequests.trans heq, ?_, Nat.zero_add _⟩
    intro payload hmem
    rcases List.mem_append.1 hmem with hmem | hmem
    · exact Bool.false_ne_true (hbackups _ hmem)
    · simp at hmem
  · obtain ⟨hsent, hnotCompleted⟩ := hsome hnot
    refine ⟨⟨_, rest, rfl, hbegun.callback, hsent⟩, hcallbacks, ?_⟩
    intro payload hmem
    rw [hrequests] at hmem
    exact hnotCompleted payload hmem

/-- A full chunk that fills the sending buffer spoils the upload. -/
theorem not_delivers (hw : ∀ i, (course.worlds i).Sends)
    (hfull : ¬ ∀ k < file.length / STREAM_CHUNK_SIZE,
      (course.worlds 0).bytesInSendingBuffer k ≤ 40 * STREAM_CHUNK_SIZE) :
    ¬ course.Delivers (uploadOf c file rest max) file := by
  rintro ⟨n, -, hdelivered⟩
  have hrun (n : ℕ) : Unfinished (course.session (uploadOf c file rest max) n).sf ∨
      Spoilt (course.session (uploadOf c file rest max) n).sf := by
    induction n with
    | zero => exact .inl ((session_zero course c file rest max (hw 0)).2 hfull)
    | succ n ih =>
      rcases ih with ih | ih
      · exact ih.step (hw _) _
      · exact .inr (ih.answerNext _ _)
  rcases hrun n with hrun | hrun
  · exact hrun.not_delivered file hdelivered
  · exact hrun.not_delivered file hdelivered

/-- **The upload delivers the file exactly when** no full chunk fills the sending buffer while the
first loop is running. -/
theorem delivers_iff (hw : ∀ i, (course.worlds i).Sends) :
    course.Delivers (uploadOf c file rest max) file ↔
      ∀ k < file.length / STREAM_CHUNK_SIZE,
        (course.worlds 0).bytesInSendingBuffer k ≤ 40 * STREAM_CHUNK_SIZE := by
  constructor
  · intro hdelivers
    by_contra hfull
    exact not_delivers course c file rest max hw hfull hdelivers
  · intro hroom
    obtain ⟨d, hcompleted⟩ := (session_zero course c file rest max (hw 0)).1 hroom
    have hrun : ∀ d n, Completed file d (course.session (uploadOf c file rest max) n) →
        course.Delivers (uploadOf c file rest max) file := by
      intro d
      induction d with
      | zero => exact fun n h ↦ ⟨n + 1, h.finish _ _⟩
      | succ d ih => exact fun n h ↦ ih (n + 1) (h.step _ _)
    exact hrun d 0 hcompleted

end Course

theorem World.plain_sends : World.plain.Sends := ⟨fun _ ↦ rfl, rfl, fun _ ↦ rfl, rfl⟩

/-- A file of one full chunk, and a sending buffer that stays empty. -/
theorem oneChunk_delivers :
    Course.Delivers ⟨fun _ ↦ World.plain, fun _ ↦ STREAM_CHUNK_SIZE, -1⟩
      (uploadOf CContext.plain (List.replicate STREAM_CHUNK_SIZE 0) [] 1)
      (List.replicate STREAM_CHUNK_SIZE 0) :=
  (delivers_iff ⟨fun _ ↦ World.plain, fun _ ↦ STREAM_CHUNK_SIZE, -1⟩ CContext.plain
    (List.replicate STREAM_CHUNK_SIZE 0) [] 1 fun _ ↦ World.plain_sends).2
    fun _ _ ↦ Nat.zero_le _

/-- **The same file and a sending buffer that the chunk fills.** -/
theorem not_delivers_full :
    ¬ ∀ (course : Course) (c : CContext) (file : Content) (rest : List CContext) (max : ℕ),
      (∀ i, (course.worlds i).Sends) → course.Delivers (uploadOf c file rest max) file := by
  intro h
  let full : World := { World.plain with bytesInSendingBuffer := fun _ ↦ 40 * STREAM_CHUNK_SIZE + 1 }
  have hfull : full.Sends := ⟨fun _ ↦ rfl, rfl, fun _ ↦ rfl, rfl⟩
  refine not_delivers ⟨fun _ ↦ full, fun _ ↦ STREAM_CHUNK_SIZE, -1⟩ CContext.plain
    (List.replicate STREAM_CHUNK_SIZE 0) [] 1 (fun _ ↦ hfull) (fun hroom ↦ ?_)
    (h _ _ _ _ _ fun _ ↦ hfull)
  have hzero : 0 < (List.replicate STREAM_CHUNK_SIZE (0 : UInt8)).length / STREAM_CHUNK_SIZE := by
    rw [List.length_replicate]
    decide
  exact absurd (hroom 0 hzero) (by decide)

end SocketPro.Go.GFile
