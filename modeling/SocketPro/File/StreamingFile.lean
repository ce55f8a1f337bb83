import Mathlib.Data.List.Basic
import Mathlib.Data.Int.Order.Basic

/-!
# The deque of files to stream

`CStreamingFile` keeps the files a user asked to upload or download in `m_vContext`, under the lock
`m_csFile`. `OnPostProcessing` opens files and sends their first requests, `OnResultReturned`
handles the replies and sends the chunks of an upload. Each function here is what one of them does
between taking and releasing the lock.

**Every reply is taken for one of the front context**, whatever request it answers; what follows
from that is in the modules that put these pieces together.

What the local files hold, whether a request can be sent and what the system reports are inputs. A
context has a number, that of the call that pushed it, which the code does not have.
-/

namespace SocketPro.FileStream

/-! ### Contexts -/

/-- `STREAM_CHUNK_SIZE`. -/
def STREAM_CHUNK_SIZE : ℕ := 10240

/-- `FILE_BAD_OPERATION`. -/
def FILE_BAD_OPERATION : ℤ := -3

/-- `SESSION_CLOSED_BEFORE` of `aclientw.h`. -/
def SESSION_CLOSED_BEFORE : ℤ := -1001

/-- What `::read` returns: a number of bytes, or -1. -/
inductive Read
  | bytes (n : ℕ)
  | failed
deriving DecidableEq, Repr

/-- `CContext`. Of the functions it is kept whether they were given. -/
structure CContext where
  id : ℕ
  Uploading : Bool
  Download : Bool
  Discarded : Bool
  /-- The open file, as what reads of it return one after the other; `none` is the descriptor -1. -/
  file : Option (List Read)
  QueueOk : Bool
  ErrorCode : ℤ
  ErrMsg : String
  Sent : Bool
deriving DecidableEq, Repr

namespace CContext

/-- A new context. -/
def new (id : ℕ) (uploading download discarded : Bool) : CContext :=
  ⟨id, uploading, download, discarded, none, false, 0, "", false⟩

def IsOpen (c : CContext) : Bool := c.file.isSome

def HasError (c : CContext) : Bool := decide (c.ErrorCode ≠ 0) || decide (c.ErrMsg ≠ "")

/-- The next read of the file. On the descriptor -1 it fails, at the end of the file it returns 0. -/
def read (c : CContext) : Read × CContext :=
  match c.file with
  | none => (.failed, c)
  | some [] => (.bytes 0, c)
  | some (r :: file) => (r, { c with file := some file })

end CContext

/-- What `OpenLocalRead` or `OpenLocalWrite` sets in the context. The error of a failed system call
is not zero. -/
structure LocalOpen where
  file : Option (List Read)
  ErrorCode : ℤ
  ErrMsg : String
  error_of_none : file = none → ErrorCode ≠ 0
  error_of_message : ErrMsg ≠ "" → ErrorCode ≠ 0

namespace CContext

/-- `OpenLocalRead`, `OpenLocalWrite`. -/
def openLocal (c : CContext) (o : LocalOpen) : CContext :=
  { c with file := o.file, ErrorCode := o.ErrorCode, ErrMsg := o.ErrMsg }

/-- The error recorded when `SendRequest` fails in `OnPostProcessing`. -/
def notSent (c : CContext) (ec : ℤ) (em : String) : CContext :=
  if ec ≠ 0 then { c with ErrorCode := ec, ErrMsg := em }
  else { c with
    ErrorCode := SESSION_CLOSED_BEFORE
    ErrMsg := "Session already closed before sending the request" }

end CContext

/-! ### Opening files -/

/-- The requests about one file. -/
inductive RequestId
  | idDownload
  | idUpload
  | idUploadBackup
  | idUploading
  | idUploadCompleted
deriving DecidableEq, Repr

/-- A request and the context it was sent for. -/
structure Request where
  owner : ℕ
  reqId : RequestId
deriving DecidableEq, Repr

/-- What happens when `OnPostProcessing` opens a file: the file, the return value of `SendRequest`,
and the error of the socket. -/
structure Opening where
  file : LocalOpen
  sent : Bool
  ec : ℤ
  em : String

/-- The first loop of `OnPostProcessing`: the contexts and the requests sent; `d` downloads are
open. -/
def openFiles (maxDownloading : ℕ) (env : ℕ → Opening) :
    ℕ → List CContext → List CContext × List Request
  | _, [] => ([], [])
  | d, it :: rest =>
    if maxDownloading ≤ d then (it :: rest, [])
    else if it.IsOpen then
      if it.Uploading then (it :: rest, [])
      else
        let (rest, sent) := openFiles maxDownloading env (d + 1) rest
        (it :: rest, sent)
    else if it.HasError then
      let (rest, sent) := openFiles maxDownloading env d rest
      (it :: rest, sent)
    else
      let o := env it.id
      let it := it.openLocal o.file
      if it.HasError then
        let (rest, sent) := openFiles maxDownloading env d rest
        (it :: rest, sent)
      else if o.sent then
        if it.Uploading then (it :: rest, [⟨it.id, .idUpload⟩])
        else
          let (rest, sent) := openFiles maxDownloading env (d + 1) rest
          (it :: rest, ⟨it.id, .idDownload⟩ :: sent)
      else
        let (rest, sent) := openFiles maxDownloading env d rest
        (it.notSent o.ec o.em :: rest, sent)

/-! ### Sending chunks -/

/-- What happens while a reply is handled. -/
structure Sending where
  /-- `StartJob` and `IsAvailable` of the client queue. -/
  startJob : Bool
  queueEnabled : Bool
  /-- The return values of `SendRequest`, for the backup, the chunks and the completion. -/
  backup : Bool
  chunk : ℕ → Bool
  completed : Bool
  /-- The sending buffer is full or the connection is lost, after each chunk. -/
  full : ℕ → Bool
  /-- `errno` and its text. -/
  errno : ℤ
  strerror : String
  /-- The number of requests that `AbortJob` takes out of the client queue again. -/
  takenBack : ℕ

/-- The variables of the loop: `ok`, `ret`, and the number of chunks sent. -/
structure Chunks where
  ok : Bool
  ret : ℕ
  sent : ℕ
  file : List Read
deriving DecidableEq, Repr

/-- The loop that sends whole chunks; `ret` is what the last read returned. -/
def chunkLoop (env : Sending) (ret sent : ℕ) : List Read → Chunks
  | [] =>
    if ret = STREAM_CHUNK_SIZE then
      if env.chunk sent then ⟨true, 0, sent + 1, []⟩ else ⟨false, ret, sent, []⟩
    else ⟨true, ret, sent, []⟩
  | r :: file =>
    if ret = STREAM_CHUNK_SIZE then
      if env.chunk sent then
        match r with
        | .failed => ⟨false, ret, sent + 1, file⟩
        | .bytes n =>
          if !env.queueEnabled && env.full sent then ⟨true, n, sent + 1, file⟩
          else chunkLoop env n (sent + 1) file
      else ⟨false, ret, sent, r :: file⟩
    else ⟨true, ret, sent, r :: file⟩

/-- What a handler has sent for the front context, and the context after it. -/
structure Transfer where
  ok : Bool
  chunks : ℕ
  completed : Bool
  context : CContext
deriving DecidableEq, Repr

/-- The last chunk, and the completion behind a chunk that is not whole. -/
def finishChunks (env : Sending) (s : Chunks) (c : CContext) : Transfer :=
  if s.ok then
    let ok := if 0 < s.ret then env.chunk s.sent else true
    let chunks := if 0 < s.ret ∧ env.chunk s.sent then s.sent + 1 else s.sent
    if ok && decide (s.ret < STREAM_CHUNK_SIZE) then
      ⟨env.completed, chunks, env.completed, { c with Sent := true }⟩
    else ⟨ok, chunks, false, c⟩
  else ⟨false, s.sent, false, c⟩

/-- Reading and sending after the reply to `idUpload`. -/
def sendFile (env : Sending) (c : CContext) : Transfer :=
  match c.read with
  | (.failed, c) => ⟨false, 0, false, c⟩
  | (.bytes n, c) =>
    let s := chunkLoop env n 0 (c.file.getD [])
    finishChunks env s { c with file := some s.file }

/-- Reading and sending after the reply to `idUploading`: one chunk. -/
def sendNext (env : Sending) (c : CContext) : Transfer :=
  match c.read with
  | (.failed, c) => ⟨false, 0, false, c⟩
  | (.bytes n, c) => finishChunks env ⟨true, n, 0, []⟩ c

/-- The requests, in the order they were sent. -/
def Transfer.requests (s : Transfer) : List Request :=
  List.replicate s.chunks ⟨s.context.id, .idUploading⟩ ++
    if s.completed then [⟨s.context.id, .idUploadCompleted⟩] else []

/-- The context after the handler: with `errno` when something failed. -/
def Transfer.result (s : Transfer) (env : Sending) : CContext :=
  if s.ok then s.context
  else { s.context with ErrorCode := env.errno, ErrMsg := env.strerror }

end SocketPro.FileStream
