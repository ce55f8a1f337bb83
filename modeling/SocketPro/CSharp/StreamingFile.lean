import SocketPro.Foundation.PosixFile
import SocketPro.Foundation.Run

/-!
# Downloads of the C# `CStreamingFile`

`CStreamingFile` of `streamclient.cs` with nothing but downloads in `m_vContext`. `OnPostProcessing`
opens the local files of the contexts, in their order and up to `m_MaxDownloading` of them, and
sends their requests; the frames of the answers go to `OnResultReturned`, which takes every frame to
be one of the first context.

The server answers the requests one after the other: `idStartDownloading`, the payloads,
`idDownload`. `wire` has the frames that have not come yet, each with the number of the request it
answers, which the client does not see. What the file system and the socket do is up to the
`Environment`; a write fails or not as the step says.

`NeverMixed` is what the downloads owe their callers. `Orderly` is the condition on the steps under
which they do; that this is enough is proved in the next module.
-/

namespace SocketPro.CSharp.StreamingFile

def FILE_OPEN_TRUNCACTED : UInt32 := 1
def FILE_OPEN_APPENDED : UInt32 := 2

def CANNOT_OPEN_LOCAL_FILE_FOR_WRITING : ℤ := -1
def SESSION_CLOSED_BEFORE : ℤ := -1001
def SESSION_CLOSED_BEFORE_ERR_MSG : String := "Session already closed before sending the request"

/-- `MAX_FILES_STREAMED`. -/
def MAX_FILES_STREAMED : ℕ := 32

/-! ### Local files -/

/-- An `IOException`; its `HResult` is an error code. -/
structure IOException where
  HResult : ℤ
  Message : String
  isError : HResult ≠ 0
deriving DecidableEq

/-- A `FileStream` open for writing. -/
structure FileStream where
  handle : Posix.Descriptor
  content : Posix.Content
deriving DecidableEq

namespace FileStream

def Position (f : FileStream) : ℕ := f.handle.offset

/-- `Write`, where it does not throw. -/
def Write (f : FileStream) (buffer : List UInt8) : FileStream :=
  let r := Posix.write f.handle f.content buffer
  ⟨r.1, r.2⟩

/-- `SetLength`, which also moves a position that is behind the end. -/
def SetLength (f : FileStream) (value : ℕ) : FileStream :=
  ⟨{ f.handle with offset := min f.handle.offset value }, Posix.truncate f.content value⟩

/-- `new FileStream(path, fm, FileAccess.Write)` with the mode that `flags` say. -/
def new (flags : UInt32) (existing : Option Posix.Content) : FileStream :=
  if flags &&& FILE_OPEN_TRUNCACTED = FILE_OPEN_TRUNCACTED then ⟨⟨false, 0⟩, []⟩
  else if flags &&& FILE_OPEN_APPENDED = FILE_OPEN_APPENDED then
    ⟨⟨false, (existing.getD []).length⟩, existing.getD []⟩
  else ⟨⟨false, 0⟩, existing.getD []⟩

end FileStream

/-- What `OpenLocalWrite` finds: the file, if it exists, and the message with which opening it
fails, if it does. -/
structure LocalFile where
  existing : Option Posix.Content
  error : Option String

/-- `CContext`, for a download; `ticket` tells which call of `Download` made it, and of the
delegates it is known whether they were given. -/
structure CContext where
  ticket : ℕ
  LocalFile : String
  FilePath : String
  Flags : UInt32
  Download : Bool
  Transferring : Bool
  FileSize : ℤ := -1
  InitSize : ℤ := -1
  ErrCode : ℤ := 0
  ErrMsg : String := ""
  File : Option FileStream := none
deriving DecidableEq

namespace CContext

def HasError (c : CContext) : Prop := c.ErrCode ≠ 0 ∨ c.ErrMsg ≠ ""

instance (c : CContext) : Decidable c.HasError := inferInstanceAs (Decidable (_ ∨ _))

/-- `OpenLocalWrite(context)`. -/
def OpenLocalWrite (context : CContext) (f : StreamingFile.LocalFile) : CContext :=
  let context := { context with InitSize := if f.existing.isSome then 0 else -1 }
  match f.error with
  | some message =>
    { context with ErrCode := CANNOT_OPEN_LOCAL_FILE_FOR_WRITING, ErrMsg := message }
  | none =>
    let file := FileStream.new context.Flags f.existing
    let context := { context with File := some file }
    if context.Flags &&& FILE_OPEN_APPENDED = FILE_OPEN_APPENDED then
      { context with InitSize := file.Position }
    else context

/-- What `CloseFile(c)` leaves on the disk; nothing when the file was not open or is deleted. -/
def closedContent (c : CContext) : Option Posix.Content :=
  c.File.bind fun f ↦
    if c.HasError then
      if c.InitSize = -1 then none
      -- `SetLength` throws for a negative value
      else if c.InitSize < 0 then some f.content
      else some (f.SetLength c.InitSize.toNat).content
    else some f.content

/-- `CloseFile(c)`. -/
def CloseFile (c : CContext) : CContext := { c with File := none }

/-- A context whose request `SendRequest` refuses, with the socket's error. -/
def refused (it : CContext) (ErrorCode : ℤ) (ErrorMsg : String) : CContext :=
  if ErrorCode = 0 then
    { it with ErrCode := SESSION_CLOSED_BEFORE, ErrMsg := SESSION_CLOSED_BEFORE_ERR_MSG }
  else { it with ErrCode := ErrorCode, ErrMsg := ErrorMsg }

end CContext

/-! ### The server -/

/-- What the server sends. -/
inductive Frame
  | startDownloading (fileSize : ℤ) (localFile remoteFile : String) (flags : UInt32) (initSize : ℤ)
  | downloading (buffer : List UInt8)
  | download (res : ℤ) (errMsg : String)
deriving DecidableEq

/-- The answer to one request. -/
structure Answer where
  fileSize : ℤ
  localFile : String
  remoteFile : String
  flags : UInt32
  initSize : ℤ
  payloads : List (List UInt8)
  res : ℤ
  errMsg : String

/-- Its frames, in the order in which they are sent. -/
def Answer.frames (a : Answer) : List Frame :=
  .startDownloading a.fileSize a.localFile a.remoteFile a.flags a.initSize ::
    (a.payloads.map .downloading ++ [.download a.res a.errMsg])

/-- The file system, the socket and the server, by the number of the request. -/
structure Environment where
  /-- The local file, when `OnPostProcessing` opens it. -/
  opened : ℕ → LocalFile
  /-- The local file, when `OnResultReturned` opens it for a frame without a context. -/
  reopened : ℕ → LocalFile
  /-- The socket's error, when `SendRequest` returns false. -/
  refuses : ℕ → Option (ℤ × String)
  answer : ℕ → Answer

/-! ### The client -/

/-- The call of a delegate, with the context as it is then. -/
inductive Notice
  | Download (c : CContext)
  | Transferring (c : CContext) (downloaded : ℤ)
deriving DecidableEq

/-- The client and the frames on their way to it. -/
structure CStreamingFile where
  m_vContext : List CContext
  m_MaxDownloading : ℕ
  wire : List (ℕ × Frame)
  /-- The number of calls of `Download` so far. -/
  made : ℕ
  /-- The payloads that have come, with the requests they belong to. -/
  received : List (ℕ × List UInt8)
  notices : List Notice
  /-- The contexts that were removed, and what their files have then. -/
  closed : List (CContext × Option Posix.Content)
  /-- A `NullReferenceException` has been thrown. -/
  thrown : Bool

/-- The steps. -/
inductive Action
  | download (localFile remoteFile : String) (dl transferring : Bool) (flags : UInt32)
  /-- The setter of `FilesStreamed`. -/
  | setFilesStreamed (value : ℕ)
  | postProcessing
  /-- The next frame comes; if it is a payload, writing it fails as said. -/
  | receive (failure : Option IOException)
deriving DecidableEq

namespace CStreamingFile

variable (env : Environment) (s : CStreamingFile)

/-- The loop of `OnPostProcessing` that opens files, and the requests it sends. -/
def openFiles (m_MaxDownloading : ℕ) : ℕ → List CContext → List CContext × List ℕ
  | _, [] => ([], [])
  | d, it :: rest =>
    if m_MaxDownloading ≤ d then (it :: rest, [])
    else if it.File.isSome then
      let r := openFiles m_MaxDownloading (d + 1) rest
      (it :: r.1, r.2)
    else if it.HasError then
      let r := openFiles m_MaxDownloading d rest
      (it :: r.1, r.2)
    else
      let it := it.OpenLocalWrite (env.opened it.ticket)
      if it.HasError then
        let r := openFiles m_MaxDownloading d rest
        (it :: r.1, r.2)
      else
        let r := openFiles m_MaxDownloading (d + 1) rest
        match env.refuses it.ticket with
        | none => (it :: r.1, it.ticket :: r.2)
        | some (ErrorCode, ErrorMsg) => (it.refused ErrorCode ErrorMsg :: r.1, r.2)

/-- The call of `Download` of a context. -/
def notify (c : CContext) : List Notice := if c.Download then [.Download c] else []

/-- The loop of `OnPostProcessing` that removes the contexts with errors from the front: those
removed and those that stay. -/
def dropFailed : List CContext → List CContext × List CContext
  | [] => ([], [])
  | it :: rest =>
    if it.HasError then (it :: (dropFailed rest).1, (dropFailed rest).2) else ([], it :: rest)

/-- `OnPostProcessing`. -/
def OnPostProcessing : CStreamingFile :=
  let r := openFiles env s.m_MaxDownloading 0 s.m_vContext
  let q := dropFailed r.1
  { s with
    m_vContext := q.2
    wire := s.wire ++ r.2.flatMap fun k ↦ (env.answer k).frames.map fun f ↦ (k, f)
    notices := s.notices ++ q.1.flatMap fun it ↦ notify it.CloseFile
    closed := s.closed ++ q.1.map fun it ↦ (it, it.closedContent) }

/-- The front context is removed, after its delegate was called. -/
def finish (ctx : CContext) (rest : List CContext) : CStreamingFile :=
  { s with
    m_vContext := rest
    notices := s.notices ++ notify ctx
    closed := s.closed ++ [(ctx, ctx.closedContent)] }

/-- `OnResultReturned` for `idDownload`. -/
def onDownload (res : ℤ) (errMsg : String) : CStreamingFile :=
  match s.m_vContext with
  | [] => s.OnPostProcessing env
  | ctx :: rest =>
    (s.finish { ctx with ErrCode := res, ErrMsg := errMsg } rest).OnPostProcessing env

/-- A context that has just been made. -/
def newContext (ticket : ℕ) (localFile remoteFile : String) (dl transferring : Bool)
    (flags : UInt32) : CContext where
  ticket := ticket
  LocalFile := localFile
  FilePath := remoteFile
  Flags := flags
  Download := dl
  Transferring := transferring

/-- `OnResultReturned` for `idStartDownloading`, once there is a context. -/
def onStartFront (fileSize : ℤ) : List CContext → CStreamingFile
  | [] => s
  | context :: rest =>
    let context := { context with FileSize := fileSize }
    match context.File with
    | none => { s with m_vContext := context :: rest, thrown := true }
    | some f =>
      let initSize := if 0 < context.InitSize then context.InitSize.toNat else 0
      let f := if initSize < f.Position then f.SetLength initSize else f
      { s with m_vContext := { context with File := some f } :: rest }

/-- `OnResultReturned` for `idStartDownloading` of the `k`-th request. -/
def onStartDownloading (k : ℕ) (fileSize : ℤ) (localFile remoteFile : String) (flags : UInt32)
    (initSize : ℤ) : CStreamingFile :=
  match s.m_vContext with
  | [] =>
    let ctx := (newContext k localFile remoteFile false false flags).OpenLocalWrite (env.reopened k)
    s.onStartFront fileSize [{ ctx with InitSize := initSize }]
  | context :: rest => s.onStartFront fileSize (context :: rest)

/-- `OnResultReturned` for `idDownloading`. -/
def onDownloading (failure : Option IOException) (buffer : List UInt8) : CStreamingFile :=
  match s.m_vContext with
  | [] => s
  | context :: rest =>
    match context.File with
    | none => { s with thrown := true }
    | some f =>
      match failure with
      | some err =>
        (s.finish { context with ErrMsg := err.Message, ErrCode := err.HResult } rest).OnPostProcessing
          env
      | none =>
        let context := { context with File := some (f.Write buffer) }
        if context.HasError then (s.finish context rest).OnPostProcessing env
        else
          let initSize := if 0 < context.InitSize then context.InitSize else 0
          { s with
            m_vContext := context :: rest
            notices := s.notices ++ if context.Transferring then
              [.Transferring context ((f.Write buffer).Position - initSize)] else [] }

/-- `OnResultReturned`. -/
def OnResultReturned (failure : Option IOException) (k : ℕ) : Frame → CStreamingFile
  | .startDownloading fileSize localFile remoteFile flags initSize =>
    s.onStartDownloading env k fileSize localFile remoteFile flags initSize
  | .downloading buffer =>
    { s with received := s.received ++ [(k, buffer)] }.onDownloading env failure buffer
  | .download res errMsg => s.onDownload env res errMsg

/-- `Download`; it throws for an empty name. -/
def download (localFile remoteFile : String) (dl transferring : Bool) (flags : UInt32) :
    CStreamingFile :=
  if localFile = "" ∨ remoteFile = "" then s
  else
    { s with
      m_vContext := s.m_vContext ++
        [newContext s.made localFile remoteFile dl transferring flags]
      made := s.made + 1 }

/-- The setter of `FilesStreamed`. -/
def setFilesStreamed (value : ℕ) : CStreamingFile :=
  { s with m_MaxDownloading :=
      if value = 0 then 1 else if MAX_FILES_STREAMED < value then MAX_FILES_STREAMED else value }

/-- What a step does; `none` when no frame is on its way. -/
def act : Action → Option CStreamingFile
  | .download localFile remoteFile dl transferring flags =>
    some (s.download localFile remoteFile dl transferring flags)
  | .setFilesStreamed value => some (s.setFilesStreamed value)
  | .postProcessing => some (s.OnPostProcessing env)
  | .receive failure =>
    match s.wire with
    | [] => none
    | (k, f) :: wire => some ({ s with wire := wire }.OnResultReturned env failure k f)

/-- One step; after an exception there is none. -/
def step (s : CStreamingFile) (a : Action) : Option CStreamingFile :=
  if s.thrown then none else s.act env a

/-- A client nobody has used. -/
def start : CStreamingFile where
  m_vContext := []
  m_MaxDownloading := 1
  wire := []
  made := 0
  received := []
  notices := []
  closed := []
  thrown := false

/-! ### What the downloads owe their callers -/

/-- The payloads of a request that have come. -/
def own (k : ℕ) (received : List (ℕ × List UInt8)) : List (List UInt8) :=
  (received.filter fun p ↦ p.1 = k).map Prod.snd

/-- The local file of a request after some payloads were written to it, and nothing else. -/
def fileWith (c : CContext) (payloads : List (List UInt8)) : FileStream :=
  payloads.foldl FileStream.Write (.new c.Flags (env.opened c.ticket).existing)

/-- **The downloads never mix.** -/
structure NeverMixed : Prop where
  /-- To an open file the payloads of its request that have come were written, in order, and nothing
  else. -/
  files : ∀ c ∈ s.m_vContext, ∀ f ∈ c.File, f = fileWith env c (own c.ticket s.received)
  /-- To a file that has been closed payloads of its request were written, in order from the first
  one on. -/
  closedFiles : ∀ p ∈ s.closed, ∀ f ∈ p.1.File,
    ∃ payloads, payloads <+: (env.answer p.1.ticket).payloads ∧ f = fileWith env p.1 payloads
  /-- A download whose callback reports 0 has received all its payloads. -/
  complete : ∀ c, .Download c ∈ s.notices → c.ErrCode = 0 →
    c.File = some (fileWith env c (env.answer c.ticket).payloads)
  noThrow : s.thrown = false

/-- The condition on the steps: the context of a frame that comes is in `m_vContext`, or no context
is. -/
def Orderly (s : CStreamingFile) : Action → Prop
  | .receive _ => ∀ p ∈ s.wire.head?, p.1 ∈ s.m_vContext.map CContext.ticket ∨ s.m_vContext = []
  | _ => True

instance (s : CStreamingFile) (a : Action) : Decidable (s.Orderly a) := by
  cases a <;> unfold Orderly <;> infer_instance

end CStreamingFile

end SocketPro.CSharp.StreamingFile
