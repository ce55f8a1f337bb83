import SocketPro.File.UploadReplay

/-!
# The local file of a download that fails

`OpenLocalWrite`, `CloseFile` and the branches of `OnResultReturned` and `OnPostProcessing` of
`streamingfile.h` that a download goes through, in their POSIX branches, for the context at the
front of `m_vContext` and its local file. Callbacks of the user and the other contexts are left out.

A download is opened and asked for; its messages arrive, `idStartDownloading` and the chunks,
perhaps once more after the connection was lost and the client queue replays the request; and it
ends with `idDownload`. It fails where the file may not be opened or locked, where the request
cannot be sent, or by the result of the server. Then `CloseFile` is to leave the file as it was
before, from the restore point `InitSize` that `OpenLocalWrite` sets.

**The restore point of an existing file is always 0** (`Local.Begun`): it is the position of a
descriptor that has just been opened, and `O_APPEND` does not move that before the first write. The
Windows branch seeks to the end and takes the position it arrives at. So `closeFile_failed` leaves
an existing file empty, whatever it held.
-/

namespace SocketPro.File

open Posix

/-- `CANNOT_OPEN_LOCAL_FILE_FOR_WRITING` of `ufile.h`. -/
def CANNOT_OPEN_LOCAL_FILE_FOR_WRITING : ℤ := -1

/-- `SESSION_CLOSED_BEFORE` of `aclientw.h`. -/
def SESSION_CLOSED_BEFORE : ℤ := -1001

/-- `SESSION_CLOSED_BEFORE_ERR_MSG`. -/
def SESSION_CLOSED_BEFORE_ERR_MSG : String :=
  "Session already closed before sending the request"

namespace LocalFile

/-- What the system answers while a local file is opened: whether it may be, the error of `fcntl`
(0 for a lock that is granted), and the text of the error. -/
structure OpenAnswers where
  denied : Bool := false
  lockErrno : ℤ := 0
  strerror : String := ""
deriving DecidableEq, Repr

/-- The fields of a `CContext` that the local file of a download depends on; `none` is the
descriptor -1. -/
structure CContext where
  Flags : UInt32
  file : Option Descriptor
  InitSize : ℤ
  ErrorCode : ℤ
  ErrMsg : String
deriving DecidableEq, Repr

namespace CContext

/-- A new context. -/
def new (flags : UInt32) : CContext := ⟨flags, none, -1, 0, ""⟩

def HasError (c : CContext) : Bool := decide (c.ErrorCode ≠ 0) || decide (c.ErrMsg ≠ "")

/-- `OpenLocalWrite`. -/
def OpenLocalWrite (a : OpenAnswers) (c : CContext) (file : Option Content) :
    CContext × Option Content :=
  match if a.denied then none else openTarget file c.Flags with
  | none =>
    ({ c with ErrorCode := CANNOT_OPEN_LOCAL_FILE_FOR_WRITING, ErrMsg := a.strerror }, file)
  | some (d, content, existing) =>
    -- `GetFilePos` just after `open`.
    let c := { c with file := some d, InitSize := if existing then d.offset else c.InitSize }
    if !has c.Flags FILE_OPEN_SHARE_WRITE && decide (a.lockErrno ≠ 0) then
      ({ c with ErrorCode := a.lockErrno, ErrMsg := a.strerror }, some content)
    else (c, some content)

end CContext

/-- The context at the front of `m_vContext`, if there is one, and the local file. -/
structure Local where
  context : Option CContext
  localFile : Option Content
deriving DecidableEq, Repr

namespace Local

/-- Whether the context has an error. -/
def HasError (s : Local) : Bool := s.context.any CContext.HasError

/-- `CloseFile`, and the context is popped. -/
def CloseFile (s : Local) : Local where
  context := none
  localFile :=
    match s.context with
    | none => s.localFile
    | some c =>
      match c.file with
      | none => s.localFile
      | some _ =>
        if c.HasError then
          if c.InitSize = -1 then none
          else s.localFile.map fun content ↦ truncate content c.InitSize.toNat
        else s.localFile

/-- `OnPostProcessing`, up to the request. `unsent` is the error of the socket when the request
cannot be sent. -/
def request (flags : UInt32) (a : OpenAnswers) (unsent : Option (ℤ × String))
    (file : Option Content) : Local :=
  let (c, file) := (CContext.new flags).OpenLocalWrite a file
  if c.HasError then ⟨some c, file⟩
  else
    match unsent with
    | none => ⟨some c, file⟩
    | some (ec, text) =>
      if ec ≠ 0 then ⟨some { c with ErrorCode := ec, ErrMsg := text }, file⟩
      else
        ⟨some { c with
          ErrorCode := SESSION_CLOSED_BEFORE
          ErrMsg := SESSION_CLOSED_BEFORE_ERR_MSG }, file⟩

/-- The branch of `idStartDownloading`. -/
def idStartDownloading (s : Local) (a : OpenAnswers) (flags : UInt32) (initSize : ℤ) : Local :=
  let (c, file) : CContext × Option Content :=
    match s.context with
    | some c => (c, s.localFile)
    | none =>
      let (c, file) := (CContext.new flags).OpenLocalWrite a s.localFile
      ({ c with InitSize := initSize }, file)
  let size := if 0 < c.InitSize then c.InitSize else 0
  match c.file with
  | none => ⟨some c, file⟩
  | some d =>
    if size < d.offset then ⟨some { c with file := some (seekSet d size) }, file⟩
    else ⟨some c, file⟩

/-- The branch of `idDownloading`. -/
def idDownloading (s : Local) (chunk : List UInt8) : Local :=
  match s.context, s.localFile with
  | some c, some content =>
    match c.file with
    | none => s
    | some d =>
      ⟨some { c with file := some (write d content chunk).1 }, some (write d content chunk).2⟩
  | _, _ => s

/-- The branch of `idDownload`, up to `CloseFile`. -/
def idDownload (s : Local) (res : ℤ) (errMsg : String) : Local :=
  { s with context := s.context.map fun c ↦ { c with ErrorCode := res, ErrMsg := errMsg } }

/-- `CleanCallbacks`: the file is closed as it is. -/
def CleanCallbacks (s : Local) : Local := s.CloseFile

end Local

/-! ### Downloads -/

/-- What arrives before the result. -/
inductive Message
  | idStartDownloading
  | idDownloading (chunk : List UInt8)
  /-- The connection is lost, and the replayed request is answered with `idStartDownloading`. The
  file may be opened again; the lock may fail. -/
  | replayed (lockErrno : ℤ) (strerror : String)
deriving DecidableEq, Repr

/-- The course of a download: what the system and the socket answer, the messages, and the result of
the server. -/
structure Course where
  opening : OpenAnswers := {}
  unsent : Option (ℤ × String) := none
  messages : List Message
  res : ℤ
  errMsg : String
deriving DecidableEq, Repr

/-- One message. The server sends back the flags and the initial size of the request. -/
def receive (flags : UInt32) (initSize : ℤ) (s : Local) : Message → Local
  | .idStartDownloading => s.idStartDownloading {} flags initSize
  | .idDownloading chunk => s.idDownloading chunk
  | .replayed lockErrno strerror =>
    s.CleanCallbacks.idStartDownloading ⟨false, lockErrno, strerror⟩ flags initSize

/-- The initial size that the request carries. -/
def Local.initSize (s : Local) : ℤ := (s.context.map CContext.InitSize).getD (-1)

/-- A download until `CloseFile` is called. -/
def ended (old : Option Content) (flags : UInt32) (course : Course) : Local :=
  let s := Local.request flags course.opening course.unsent old
  if s.HasError then s
  else
    (course.messages.foldl (receive flags s.initSize) s).idDownload course.res course.errMsg

/-! ### The restore point -/

/-- Between the request and the result: the file is open, with the given restore point. -/
structure Local.Begun (initSize : ℤ) (s : Local) : Prop where
  context : ∃ c d, s.context = some c ∧ c.file = some d ∧ c.InitSize = initSize
  localFile : ∃ content, s.localFile = some content

/-- **The restore point of an existing file is 0.** -/
theorem openLocalWrite_spec {a : OpenAnswers} (h : a.denied = false) (c : CContext)
    (file : Option Content) :
    ∃ c' d content, c.OpenLocalWrite a file = (c', some content) ∧ c'.file = some d ∧
      c'.InitSize = if file = none then c.InitSize else 0 := by
  have hopen : ∃ d content existing, openTarget file c.Flags = some (d, content, existing) ∧
      (if existing = true then (d.offset : ℤ) else c.InitSize) =
        if file = none then c.InitSize else 0 := by
    cases file with
    | none => exact ⟨_, _, _, openTarget_none c.Flags, rfl⟩
    | some old =>
      obtain ⟨d, content, hd, -, hoffset, -⟩ := openTarget_some old c.Flags
      exact ⟨d, content, true, hd, by simp [hoffset]⟩
  obtain ⟨d, content, existing, hd, hsize⟩ := hopen
  simp only [CContext.OpenLocalWrite, h, hd, Bool.false_eq_true, if_false, hsize]
  split_ifs <;> exact ⟨_, d, content, rfl, rfl, rfl⟩

/-- The restore point that the request carries. -/
def restorePoint (old : Option Content) : ℤ := if old = none then -1 else 0

theorem request_begun {a : OpenAnswers} (h : a.denied = false) (flags : UInt32)
    (unsent : Option (ℤ × String)) (old : Option Content) :
    (Local.request flags a unsent old).Begun (restorePoint old) := by
  obtain ⟨c, d, content, hopen, hfile, hsize⟩ := openLocalWrite_spec h (CContext.new flags) old
  have hsize' : c.InitSize = restorePoint old := hsize
  simp only [Local.request, hopen]
  split_ifs
  · exact ⟨⟨c, d, rfl, hfile, hsize'⟩, content, rfl⟩
  · cases unsent with
    | none => exact ⟨⟨c, d, rfl, hfile, hsize'⟩, content, rfl⟩
    | some error =>
      dsimp only
      split_ifs <;> exact ⟨⟨_, d, rfl, hfile, hsize'⟩, content, rfl⟩

/-- A request for a file that may not be opened fails, without a descriptor. -/
theorem request_denied {a : OpenAnswers} (h : a.denied = true) (flags : UInt32)
    (unsent : Option (ℤ × String)) (old : Option Content) :
    (Local.request flags a unsent old).HasError = true ∧
      (Local.request flags a unsent old).CloseFile.localFile = old := by
  simp [Local.request, CContext.OpenLocalWrite, h, CContext.HasError, Local.HasError,
    Local.CloseFile, CContext.new, CANNOT_OPEN_LOCAL_FILE_FOR_WRITING]

theorem idStartDownloading_begun {initSize : ℤ} {s : Local} {a : OpenAnswers}
    (h : s.Begun initSize ∨ s.context = none ∧ a.denied = false) (flags : UInt32) :
    (s.idStartDownloading a flags initSize).Begun initSize := by
  obtain ⟨c, d, content, heq, hfile, hsize⟩ : ∃ c d content,
      (match s.context with
        | some c => (c, s.localFile)
        | none =>
          let (c, file) := (CContext.new flags).OpenLocalWrite a s.localFile
          ({ c with InitSize := initSize }, file)) = (c, some content) ∧
        c.file = some d ∧ c.InitSize = initSize := by
    rcases h with ⟨⟨c, d, hcontext, hfile, hsize⟩, content, hcontent⟩ | ⟨hnone, ha⟩
    · exact ⟨c, d, content, by rw [hcontext, hcontent], hfile, hsize⟩
    · obtain ⟨c, d, content, hopen, hfile, -⟩ :=
        openLocalWrite_spec ha (CContext.new flags) s.localFile
      exact ⟨{ c with InitSize := initSize }, d, content, by rw [hnone, hopen], hfile, rfl⟩
  unfold Local.idStartDownloading
  rw [heq]
  simp only [hfile]
  generalize (if 0 < c.InitSize then c.InitSize else 0) = size
  split_ifs
  · exact ⟨⟨_, _, rfl, rfl, hsize⟩, content, rfl⟩
  · exact ⟨⟨c, d, rfl, hfile, hsize⟩, content, rfl⟩

/-- One message keeps the restore point. -/
theorem receive_begun {initSize : ℤ} {s : Local} (h : s.Begun initSize) (flags : UInt32)
    (message : Message) : (receive flags initSize s message).Begun initSize := by
  cases message with
  | idStartDownloading => exact idStartDownloading_begun (.inl h) flags
  | replayed lockErrno strerror =>
    have hclosed : s.CleanCallbacks.context = none := rfl
    exact idStartDownloading_begun (a := ⟨false, lockErrno, strerror⟩) (.inr ⟨hclosed, rfl⟩) flags
  | idDownloading chunk =>
    obtain ⟨⟨c, d, hcontext, hfile, hsize⟩, content, hcontent⟩ := h
    simp only [receive, Local.idDownloading, hcontext, hcontent, hfile]
    exact ⟨⟨_, _, rfl, rfl, hsize⟩, _, rfl⟩

/-- All messages. -/
theorem messages_begun {initSize : ℤ} {s : Local} (h : s.Begun initSize) (flags : UInt32)
    (messages : List Message) :
    (messages.foldl (receive flags initSize) s).Begun initSize :=
  List.foldlRecOn messages _ h fun _ hs message _ ↦ receive_begun hs flags message

theorem Local.Begun.initSize_eq {initSize : ℤ} {s : Local} (h : s.Begun initSize) :
    s.initSize = initSize := by
  obtain ⟨⟨c, d, hcontext, -, hsize⟩, -⟩ := h
  simp [Local.initSize, hcontext, hsize]

theorem Local.Begun.idDownload {initSize : ℤ} {s : Local} (h : s.Begun initSize) (res : ℤ)
    (errMsg : String) : (s.idDownload res errMsg).Begun initSize := by
  obtain ⟨⟨c, d, hcontext, hfile, hsize⟩, hcontent⟩ := h
  exact ⟨⟨{ c with ErrorCode := res, ErrMsg := errMsg }, d, by simp [Local.idDownload, hcontext],
    hfile, hsize⟩, hcontent⟩

/-! ### What a failed download leaves -/

/-- `CloseFile` of a download that has failed. -/
theorem Local.Begun.closeFile {old : Option Content} {s : Local} (h : s.Begun (restorePoint old))
    (herror : s.HasError) : s.CloseFile.localFile = old.map fun _ ↦ [] := by
  obtain ⟨⟨c, d, hcontext, hfile, hsize⟩, content, hcontent⟩ := h
  have herror' : c.HasError = true := by simpa [Local.HasError, hcontext] using herror
  simp only [Local.CloseFile, hcontext, hfile, herror', if_true, hsize, hcontent, restorePoint]
  cases old <;> simp [truncate]

/-- **What a failed download leaves**: no file where there was none, and otherwise an empty one. -/
theorem closeFile_failed (old : Option Content) (flags : UInt32) (course : Course)
    (herror : (ended old flags course).HasError) :
    (ended old flags course).CloseFile.localFile =
      if course.opening.denied then old else old.map fun _ ↦ [] := by
  cases hdenied : course.opening.denied with
  | true =>
    obtain ⟨hfails, hfile⟩ := request_denied hdenied flags course.unsent old
    simpa [ended, hfails] using hfile
  | false =>
    have hbegun := request_begun hdenied flags course.unsent old
    refine Local.Begun.closeFile ?_ herror
    unfold ended
    dsimp only
    split_ifs
    · exact hbegun
    · rw [hbegun.initSize_eq]
      exact (messages_begun hbegun flags course.messages).idDownload course.res course.errMsg

/-- **When a failed download restores the local file**, for every old file, flags and course: if it
could not be opened, did not exist, or was empty. -/
theorem download_restores_iff (old : Option Content) (flags : UInt32) (course : Course)
    (herror : (ended old flags course).HasError) :
    (ended old flags course).CloseFile.localFile = old ↔
      course.opening.denied = true ∨ old = none ∨ old = some [] := by
  rw [closeFile_failed old flags course herror]
  cases course.opening.denied <;> rcases old with _ | content <;> simp [eq_comm]

/-- A download to be appended to an empty file, interrupted by the server after one chunk. -/
theorem download_restores_empty :
    (ended (some []) FILE_OPEN_APPENDED
      { messages := [.idStartDownloading, .idDownloading [1, 2]], res := -4,
        errMsg := "File downloading interrupted" }).CloseFile.localFile = some [] :=
  (download_restores_iff (some []) FILE_OPEN_APPENDED
    { messages := [.idStartDownloading, .idDownloading [1, 2]], res := -4,
      errMsg := "File downloading interrupted" } (by decide +kernel)).2 (.inr (.inr rfl))

/-- The same with a file of one byte: the byte is lost. -/
theorem not_download_restores :
    (ended (some [7]) FILE_OPEN_APPENDED
        { messages := [.idStartDownloading, .idDownloading [1, 2]], res := -4,
          errMsg := "File downloading interrupted" }).HasError = true ∧
      (ended (some [7]) FILE_OPEN_APPENDED
        { messages := [.idStartDownloading, .idDownloading [1, 2]], res := -4,
          errMsg := "File downloading interrupted" }).CloseFile.localFile ≠ some [7] := by
  decide +kernel

end LocalFile

end SocketPro.File
