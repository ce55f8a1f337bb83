import SocketPro.Foundation.Run
import SocketPro.File.StreamingFile

/-!
# A session that uploads files

One `CStreamingFile` whose user only uploads, and the `CSFileImpl` it is connected to. Requests and
replies travel in order, and the server answers each request. The handlers of the client run on the
thread of the socket one after the other, so each is one step here.

The session carries a record that the code does not have: the requests the server has processed,
the calls of `Download`, and for each reply to `idUploading` or `idUploadCompleted` the request it
answers with the file it was taken for.
-/

namespace SocketPro.FileStream

/-! ### The server -/

/-- An error number and its text; a write of fewer bytes sets none. -/
structure Failure where
  code : ℤ
  message : String
deriving DecidableEq, Repr

/-- What the disk of the server does with one request. -/
structure Disk where
  /-- `open` fails, or `fcntl` behind it. -/
  openFails : Option Failure
  lockFails : Option Failure
  writeFails : Option Failure
  /-- What `Uploading` returns as position. -/
  pos : ℤ
deriving DecidableEq, Repr

inductive Answer
  | upload (res : ℤ) (errMsg : String)
  | uploading (uploaded res : ℤ) (errMsg : String)
  | other
deriving DecidableEq, Repr

/-- A reply, with the request it answers. -/
structure Reply where
  request : Request
  answer : Answer
deriving DecidableEq, Repr

/-- `Upload`, `UploadBackup`, `Uploading` and `UploadCompleted` of `CSFileImpl`: whether a file is
open behind it, and the answer. -/
def serveRequest (m_of : Bool) (disk : Disk) : RequestId → Bool × Answer
  | .idUpload =>
    match disk.openFails, disk.lockFails with
    | some e, _ => (false, .upload e.code e.message)
    | none, some e => (true, .upload e.code e.message)
    | none, none => (true, .upload 0 "")
  | .idUploading =>
    if m_of then
      match disk.writeFails with
      | none => (true, .uploading disk.pos 0 "")
      | some e => (true, .uploading disk.pos e.code e.message)
    else (false, .uploading (-1) FILE_BAD_OPERATION "Bad file operation")
  | .idUploadCompleted => (false, .other)
  | .idUploadBackup => (m_of || disk.openFails.isNone, .other)
  | .idDownload => (false, .other)

/-! ### The session -/

/-- A call of `Download`. -/
structure Call where
  owner : ℕ
  code : ℤ
  message : String
deriving DecidableEq, Repr

structure Session where
  m_vContext : List CContext
  /-- The number of files queued so far. -/
  queued : ℕ
  /-- Requests under way, and replies. -/
  requests : List Request
  replies : List Reply
  m_of : Bool
  processed : List Request
  calls : List Call
  /-- The request that a reply answers, and the front context it was taken for. -/
  accounts : List (Request × Option ℕ)
deriving DecidableEq, Repr

inductive Action
  /-- `Upload`; `up` and `aborted` are given or not. -/
  | Upload (up aborted : Bool)
  | OnPostProcessing (env : ℕ → Opening)
  /-- The server processes the next request. -/
  | serve (disk : Disk)
  /-- The client handles the next reply; `post` is for the call of `OnPostProcessing` at its end. -/
  | OnResultReturned (env : Sending) (post : ℕ → Opening)

namespace Session

def initial : Session := ⟨[], 0, [], [], false, [], [], []⟩

/-- `if (cb) cb(this, errCode, errMsg);`. -/
def callDownload (s : Session) (c : CContext) (code : ℤ) (message : String) : Session :=
  if c.Download then { s with calls := s.calls ++ [⟨c.id, code, message⟩] } else s

/-- The second loop of `OnPostProcessing`: the front contexts with an error. -/
def popErrors : List CContext → Session → Session
  | [], s => { s with m_vContext := [] }
  | it :: rest, s =>
    if it.HasError then popErrors rest (s.callDownload it it.ErrorCode it.ErrMsg)
    else { s with m_vContext := it :: rest }

section Handlers

variable (maxDownloading : ℕ)

/-- `OnPostProcessing` -/
def OnPostProcessing (env : ℕ → Opening) (s : Session) : Session :=
  let opened := openFiles maxDownloading env 0 s.m_vContext
  popErrors opened.1 { s with requests := s.requests ++ opened.2 }

/-- `Download` of the copy `ctx`, and the front is removed. -/
def dropFront (ctx : CContext) (s : Session) : Session :=
  let s := s.callDownload ctx ctx.ErrorCode ctx.ErrMsg
  { s with m_vContext := s.m_vContext.tail }

/-- `if (ctx.QueueOk) GetSocket()->GetClientQueue().AbortJob();`, of what a handler has sent. -/
def abortJob (takenBack sent : ℕ) (ctx : CContext) (s : Session) : Session :=
  if ctx.QueueOk then
    { s with requests := s.requests.take (s.requests.length - min takenBack sent) }
  else s

/-- `idUploadBackup`, where the client queue is in use. -/
def backup (env : Sending) (context : CContext) : List Request :=
  if env.queueEnabled && env.backup then [⟨context.id, .idUploadBackup⟩] else []

/-- `OnResultReturned` for `idUpload`. -/
def onUpload (env : Sending) (post : ℕ → Opening) (res : ℤ) (errMsg : String) (s : Session) :
    Session :=
  match s.m_vContext with
  | [] => s
  | context :: rest =>
    if res ≠ 0 ∨ errMsg ≠ "" then
      let ctx := { context with ErrorCode := res, ErrMsg := errMsg }
      OnPostProcessing maxDownloading post (abortJob env.takenBack 0 ctx (dropFront ctx s))
    else
      let context := { context with QueueOk := env.startJob }
      let t := sendFile env context
      let sent := backup env context ++ t.requests
      let ctx := t.result env
      let s := { s with m_vContext := ctx :: rest, requests := s.requests ++ sent }
      if t.ok = false ∧ ctx.HasError then
        OnPostProcessing maxDownloading post
          (abortJob env.takenBack sent.length ctx (dropFront ctx s))
      else s

/-- `OnResultReturned` for `idUploading`. -/
def onUploading (env : Sending) (post : ℕ → Opening) (uploaded res : ℤ) (errMsg : String)
    (s : Session) : Session :=
  match s.m_vContext with
  | [] => s
  | context :: rest =>
    if uploaded < 0 ∨ res ≠ 0 ∨ errMsg ≠ "" then
      let ctx := { context with ErrorCode := res, ErrMsg := errMsg }
      let s := { s with m_vContext := ctx :: rest }
      if ctx.HasError then OnPostProcessing maxDownloading post (dropFront ctx s) else s
    else if context.Sent then s
    else
      let t := sendNext env context
      let ctx := t.result env
      let s := { s with m_vContext := ctx :: rest, requests := s.requests ++ t.requests }
      if t.ok = false ∧ ctx.HasError then
        OnPostProcessing maxDownloading post (dropFront ctx s)
      else s

/-- `OnResultReturned` for `idUploadCompleted`. -/
def onUploadCompleted (post : ℕ → Opening) (s : Session) : Session :=
  match s.m_vContext with
  | [] => OnPostProcessing maxDownloading post s
  | context :: rest =>
    if context.IsOpen then
      OnPostProcessing maxDownloading post
        { s.callDownload context 0 "" with m_vContext := rest }
    else
      OnPostProcessing maxDownloading post
        { s with m_vContext := { context with Sent := false, QueueOk := false } :: rest }

/-- An acknowledgement is taken for the front. -/
def account (r : Request) (s : Session) : Session :=
  { s with accounts := s.accounts ++ [(r, s.m_vContext.head?.map CContext.id)] }

/-- `OnResultReturned` -/
def handle (env : Sending) (post : ℕ → Opening) (r : Reply) (s : Session) : Session :=
  match r.request.reqId, r.answer with
  | .idUpload, .upload res errMsg => onUpload maxDownloading env post res errMsg s
  | .idUploading, .uploading uploaded res errMsg =>
    onUploading maxDownloading env post uploaded res errMsg (s.account r.request)
  | .idUploadCompleted, _ => onUploadCompleted maxDownloading post (s.account r.request)
  | _, _ => s

/-- One step; `none` when there is nothing to process or to handle. -/
def step (s : Session) : Action → Option Session
  | .Upload up aborted => some { s with
      m_vContext := s.m_vContext ++ [.new s.queued true up aborted]
      queued := s.queued + 1 }
  | .OnPostProcessing env => some (s.OnPostProcessing maxDownloading env)
  | .serve disk =>
    match s.requests with
    | [] => none
    | r :: requests => some { s with
        requests := requests
        replies := s.replies ++ [⟨r, (serveRequest s.m_of disk r.reqId).2⟩]
        m_of := (serveRequest s.m_of disk r.reqId).1
        processed := s.processed ++ [r] }
  | .OnResultReturned env post =>
    match s.replies with
    | [] => none
    | r :: replies => some (handle maxDownloading env post r { s with replies := replies })

end Handlers

/-- **Upload success is honest.** -/
structure Honest (s : Session) : Prop where
  /-- A file is reported as uploaded only after the server has processed its completion. -/
  success : ∀ c ∈ s.calls, c.code = 0 → ⟨c.owner, .idUploadCompleted⟩ ∈ s.processed
  /-- Every acknowledgement is taken for the file whose request it answers. -/
  accounted : ∀ a ∈ s.accounts, a.2 = some a.1.owner

end Session

end SocketPro.FileStream
