import SocketPro.Foundation.Mutex
import SocketPro.Foundation.PosixFile

/-!
# The streaming file of the Go adapter

`requestProcessed` and `postProcessing` of `gfile/rfile.go`. A call leaves an event for every use of
`sf.cs`, every change of the deque `m_vContext`, every request, every callback of the user and every
turn of the job of the client queue, in the order of the code; deferred calls come at the end, the
last one deferred first.

What the surroundings answer during one call is a `World`: the local files, `SendRequest`, which
leaves an error code and a message with the socket when it fails, the bytes in the sending buffer and
the client queue. A local file is a regular file that no one else changes, and a read returns what is
left up to the size asked for. A callback leaves the handler as it is. What is only handed on, as
`Discarded` and `Se` are to `SendRequest`, and the sharing modes of the files are left out, as is
`Recycle` of a buffer.
-/

namespace SocketPro.Go.GFile

open Posix (Content Descriptor)

abbrev STREAM_CHUNK_SIZE : ℕ := 10240

abbrev FILE_OPEN_TRUNCACTED : ℕ := 1

abbrev FILE_OPEN_APPENDED : ℕ := 2

abbrev CANNOT_OPEN_LOCAL_FILE_FOR_WRITING : ℤ := -1

abbrev CANNOT_OPEN_LOCAL_FILE_FOR_READING : ℤ := -2

abbrev INVALID_FILE_SIZE : ℕ := 0xffffffffffffffff

abbrev SESSION_CLOSED_BEFORE : ℤ := -1001

abbrev SESSION_CLOSED_BEFORE_ERR_MSG : String :=
  "Session already closed before sending the request"

/-- An open `os.File`. -/
structure OsFile where
  content : Content
  descriptor : Descriptor
  writable : Bool
deriving DecidableEq, Repr

/-- What `os.OpenFile` finds under the name of a local file. -/
inductive Found
  | refused (err : String)
  | absent
  | present (content : Content)
deriving DecidableEq, Repr

/-- The requests, with what is saved for each. -/
inductive Request
  | Download (LocalFile FilePath : String) (Flags : ℕ) (InitSize : ℤ)
  | Upload (FilePath : String) (Flags FileSize : ℕ)
  | Uploading (chunk : Content)
  | UploadCompleted (payload : Content)
  | UploadBackup (FilePath : String) (Flags FileSize : ℕ) (InitSize : ℤ)
deriving DecidableEq, Repr

inductive Event
  | Lock
  | Unlock
  /-- The deque `m_vContext` changes. -/
  | change
  | SendRequest (r : Request) (sent : Bool)
  | Download (ErrCode : ℤ) (ErrMsg : String)
  | Transferring (transferred : ℤ)
  | StartJob
  | EndJob
  | AbortJob
  | Remove (LocalFile : String)
  | Truncate (LocalFile : String) (size : ℤ)
  | panic
deriving DecidableEq, Repr

/-- An answer of `SendRequest`, and what `GetErrorCode` and `GetErrorMsg` say when it has failed. -/
structure Answer where
  sent : Bool
  ErrCode : ℤ := 0
  ErrMsg : String := ""
deriving DecidableEq, Repr

/-- What a call meets. -/
structure World where
  /-- The local file of a context, by its place in the queue. -/
  opening : ℕ → Found
  /-- The answer for `Upload` or `Download` of a context, by its place in the queue. -/
  start : ℕ → Answer
  /-- Whether `UploadBackup` is sent. -/
  backup : Bool
  /-- The answers for `Uploading`. -/
  chunk : ℕ → Answer
  completed : Answer
  /-- `GetBytesInSendingBuffer` after a chunk has been sent. -/
  bytesInSendingBuffer : ℕ → ℕ
  /-- `StartJob` and `IsAvailable` of the client queue. -/
  StartJob : Bool
  IsAvailable : Bool

/-- `cContext`; of the callbacks, whether there is one. -/
structure CContext where
  ErrCode : ℤ := 0
  ErrMsg : String := ""
  Download : Bool
  Transferring : Bool
  Uploading : Bool
  FileSize : ℕ := INVALID_FILE_SIZE
  Flags : ℕ
  LocalFile : String
  FilePath : String
  QueueOk : Bool := false
  Sent : Bool := false
  InitSize : ℤ := -1
  File : Option OsFile := none
deriving DecidableEq, Repr

namespace CContext

variable (c : CContext)

def IsOpen : Bool := c.File.isSome

def HasError : Bool := decide (c.ErrCode ≠ 0) || decide (c.ErrMsg ≠ "")

/-- `ErrCode` and `ErrMsg` are set. -/
def failing (ErrCode : ℤ) (ErrMsg : String) : CContext :=
  { c with ErrCode := ErrCode, ErrMsg := ErrMsg }

/-- What an answer leaves: the error of the socket, if the request was not sent. -/
def answered (a : Answer) : CContext := if a.sent then c else c.failing a.ErrCode a.ErrMsg

def CloseFile : CContext := { c with File := none }

/-- What `CloseFile` does to the local file: a download that failed is undone. -/
def closing : List Event :=
  if c.IsOpen ∧ ¬ c.Uploading ∧ c.HasError then
    if c.InitSize = -1 then [.Remove c.LocalFile] else [.Truncate c.LocalFile c.InitSize]
  else []

def OpenLocalRead : Found → CContext
  | .refused err => c.failing CANNOT_OPEN_LOCAL_FILE_FOR_READING err
  | .absent =>
    c.failing CANNOT_OPEN_LOCAL_FILE_FOR_READING
      ("open " ++ c.LocalFile ++ ": no such file or directory")
  | .present content =>
    { c with File := some ⟨content, ⟨false, 0⟩, false⟩, FileSize := content.length }

def OpenLocalWrite : Found → CContext
  | .refused err => c.failing CANNOT_OPEN_LOCAL_FILE_FOR_WRITING err
  | .absent => { c with File := some ⟨[], ⟨false, 0⟩, true⟩ }
  | .present content =>
    -- the file exists: it is opened once more, and `Seek` gives the position
    let file : OsFile :=
      if c.Flags &&& FILE_OPEN_TRUNCACTED = FILE_OPEN_TRUNCACTED then ⟨[], ⟨false, 0⟩, true⟩
      else if c.Flags &&& FILE_OPEN_APPENDED = FILE_OPEN_APPENDED then ⟨content, ⟨true, 0⟩, true⟩
      else ⟨content, ⟨false, 0⟩, true⟩
    { c with File := some file, InitSize := file.descriptor.offset }

/-- What is left to be read. -/
def unread : Content :=
  match c.File with
  | none => []
  | some f => if f.writable then [] else f.content.drop f.descriptor.offset

/-- The position of the open file goes forward. -/
def advance (n : ℕ) : CContext :=
  { c with File := c.File.map fun f ↦ { f with descriptor.offset := f.descriptor.offset + n } }

/-- `File.Read` into a buffer of `STREAM_CHUNK_SIZE` bytes. -/
def Read : Except String Content × CContext :=
  match c.File with
  | none => (.error "invalid argument", c)
  | some f =>
    if f.writable then (.error ("read " ++ c.LocalFile ++ ": bad file descriptor"), c)
    else
      let bytes := (f.content.drop f.descriptor.offset).take STREAM_CHUNK_SIZE
      if bytes = [] then (.error "EOF", c) else (.ok bytes, c.advance bytes.length)

/-- `File.Write`, whose error is ignored. -/
def Write (bytes : Content) : CContext :=
  match c.File with
  | none => c
  | some f =>
    if f.writable then
      let (descriptor, content) := Posix.write f.descriptor f.content bytes
      { c with File := some { f with descriptor := descriptor, content := content } }
    else c

/-- **A read at the end.** -/
theorem Read_end (h : c.unread = []) : ∃ err, c.Read = (.error err, c) := by
  unfold Read
  unfold unread at h
  cases hfile : c.File with
  | none => exact ⟨_, rfl⟩
  | some f =>
    rw [hfile] at h
    dsimp only at h ⊢
    split_ifs with hwritable hbytes
    · exact ⟨_, rfl⟩
    · exact ⟨_, rfl⟩
    · rw [if_neg hwritable] at h
      exact absurd (by rw [h, List.take_nil]) hbytes

/-- **A read before the end.** -/
theorem Read_chunk (h : c.unread ≠ []) :
    c.Read = (.ok (c.unread.take STREAM_CHUNK_SIZE),
      c.advance (c.unread.take STREAM_CHUNK_SIZE).length) := by
  unfold Read
  unfold unread at h ⊢
  cases hfile : c.File with
  | none =>
    rw [hfile] at h
    exact absurd rfl h
  | some f =>
    rw [hfile] at h
    dsimp only at h ⊢
    split_ifs at h ⊢ with hwritable hbytes
    · exact absurd rfl h
    · simp [STREAM_CHUNK_SIZE, h] at hbytes
    · rfl

theorem unread_advance (n : ℕ) : (c.advance n).unread = c.unread.drop n := by
  unfold unread advance
  cases c.File with
  | none => exact (List.drop_nil).symm
  | some f =>
    dsimp only [Option.map_some]
    split_ifs
    · exact (List.drop_nil).symm
    · exact List.drop_drop.symm

theorem Read_ok {bytes : Content} {c' : CContext} (h : c.Read = (.ok bytes, c')) :
    c.unread ≠ [] ∧ bytes = c.unread.take STREAM_CHUNK_SIZE ∧ c' = c.advance bytes.length := by
  by_cases hend : c.unread = []
  · obtain ⟨err, hread⟩ := c.Read_end hend
    rw [hread] at h
    cases h
  · rw [c.Read_chunk hend] at h
    cases h
    exact ⟨hend, rfl, rfl⟩

theorem Read_error {err : String} {c' : CContext} (h : c.Read = (.error err, c')) :
    c.unread = [] ∧ c' = c := by
  by_cases hend : c.unread = []
  · obtain ⟨err', hread⟩ := c.Read_end hend
    rw [hread] at h
    cases h
    exact ⟨hend, rfl⟩
  · rw [c.Read_chunk hend] at h
    cases h

theorem unread_of_Read_ok {bytes : Content} {c' : CContext} (h : c.Read = (.ok bytes, c')) :
    c'.unread = c.unread.drop STREAM_CHUNK_SIZE := by
  obtain ⟨-, rfl, rfl⟩ := c.Read_ok h
  rw [unread_advance, List.length_take]
  rcases Nat.le_total STREAM_CHUNK_SIZE c.unread.length with hle | hle
  · rw [Nat.min_eq_left hle]
  · rw [Nat.min_eq_right hle, List.drop_length, List.drop_of_length_le hle]

@[simp] theorem advance_zero : c.advance 0 = c := by
  obtain ⟨_, _, _, _, _, _, _, _, _, _, _, _, file⟩ := c
  cases file <;> rfl

theorem advance_advance (m n : ℕ) : (c.advance m).advance n = c.advance (m + n) := by
  obtain ⟨_, _, _, _, _, _, _, _, _, _, _, _, file⟩ := c
  cases file with
  | none => rfl
  | some f => simp [advance, Nat.add_assoc]

theorem answered_of_sent {a : Answer} (h : a.sent = true) : c.answered a = c := by
  rw [answered, if_pos h]

@[simp] theorem HasError_advance (n : ℕ) : (c.advance n).HasError = c.HasError := rfl

end CContext

/-- The handler, and what its calls have done. -/
structure CStreamingFile where
  m_vContext : List CContext
  m_maxDownloading : ℕ
  log : List Event := []
deriving DecidableEq

/-! ### `postProcessing` -/

/-- How the first loop goes on behind a context: it breaks, or goes on with more downloads. -/
inductive Turn
  | stop
  | go (downloads : ℕ)
deriving DecidableEq, Repr

/-- The error of a context whose request was not sent. -/
def CContext.notStarted (c : CContext) (a : Answer) : CContext :=
  if a.ErrCode = 0 then c.failing SESSION_CLOSED_BEFORE SESSION_CLOSED_BEFORE_ERR_MSG
  else c.failing a.ErrCode a.ErrMsg

/-- Behind the opening of the local file: the request is sent, and the loop goes on with `turn`. -/
def sendStart (w : World) (n : ℕ) (it : CContext) (r : Request) (turn : Turn) :
    CContext × List Event × Turn :=
  if it.HasError then (it, [], .go 0)
  else if (w.start n).sent then (it, [.SendRequest r true], turn)
  else (it.notStarted (w.start n), [.SendRequest r false], .go 0)

/-- The body of the first loop, for the context at place `n`. -/
def startContext (w : World) (n : ℕ) (it : CContext) : CContext × List Event × Turn :=
  if it.IsOpen then
    if it.Uploading then (it, [], .stop) else (it, [], .go 1)
  else if it.HasError then (it, [], .go 0)
  else if it.Uploading then
    let it := it.OpenLocalRead (w.opening n)
    sendStart w n it (.Upload it.FilePath it.Flags it.FileSize) .stop
  else
    let it := it.OpenLocalWrite (w.opening n)
    sendStart w n it (.Download it.LocalFile it.FilePath it.Flags it.InitSize) (.go 1)

/-- The first loop from place `n` on, with `d` downloads. -/
def startLoop (w : World) (max : ℕ) (n d : ℕ) : List CContext → List CContext × List Event
  | [] => ([], [])
  | it :: rest =>
    if d ≥ max then (it :: rest, [])
    else
      match startContext w n it with
      | (it, events, .stop) => (it :: rest, events)
      | (it, events, .go downloads) =>
        let (rest, more) := startLoop w max (n + 1) (d + downloads) rest
        (it :: rest, events ++ more)

/-- The second loop: what is left of the queue, and how many calls of `Lock` are deferred. -/
def popLoop : List CContext → List CContext × List Event × ℕ
  | [] => ([], [], 0)
  | it :: rest =>
    if it.HasError then
      let (left, events, deferred) := popLoop rest
      if it.Download then
        (left, it.closing ++ [.Unlock, .Download it.ErrCode it.ErrMsg, .change] ++ events,
          deferred + 1)
      else (left, it.closing ++ [.change] ++ events, deferred)
    else (it :: rest, [], 0)

namespace CStreamingFile

/-- Something is done. -/
def note (sf : CStreamingFile) (events : List Event) : CStreamingFile :=
  { sf with log := sf.log ++ events }

def Lock (sf : CStreamingFile) : CStreamingFile := sf.note [.Lock]

def Unlock (sf : CStreamingFile) : CStreamingFile := sf.note [.Unlock]

/-- The context at the front, which is pointed to, is written. -/
def setFront (sf : CStreamingFile) (cxt : CContext) : CStreamingFile :=
  { sf with m_vContext := cxt :: sf.m_vContext.tail }

/-- `m_vContext.PopFront`. -/
def PopFront (sf : CStreamingFile) : CStreamingFile :=
  { sf with m_vContext := sf.m_vContext.tail }.note [.change]

/-- `m_vContext.PushBack`. -/
def PushBack (sf : CStreamingFile) (c : CContext) : CStreamingFile :=
  { sf with m_vContext := sf.m_vContext ++ [c] }.note [.change]

def postProcessing (sf : CStreamingFile) (w : World) : CStreamingFile :=
  let sf := sf.Lock
  let (contexts, started) := startLoop w sf.m_maxDownloading 0 0 sf.m_vContext
  let sf := sf.note started
  let (left, popped, deferred) := popLoop contexts
  let sf := { sf with m_vContext := left }.note popped
  (sf.note (List.replicate deferred .Lock)).Unlock

/-- What `postProcessing` does, in order. -/
theorem log_postProcessing (sf : CStreamingFile) (w : World) :
    ∃ events, (sf.postProcessing w).log = sf.log ++ events ∧
      events = [.Lock] ++ (startLoop w sf.m_maxDownloading 0 0 sf.m_vContext).2 ++
        (popLoop (startLoop w sf.m_maxDownloading 0 0 sf.m_vContext).1).2.1 ++
        List.replicate (popLoop (startLoop w sf.m_maxDownloading 0 0 sf.m_vContext).1).2.2 .Lock ++
        [.Unlock] :=
  ⟨_, by simp only [postProcessing, Lock, Unlock, note, List.append_assoc], rfl⟩

/-! ### `requestProcessed` -/

/-- `Download` of a context is called, if it is there. -/
def callDownload (sf : CStreamingFile) (cxt : CContext) (ErrCode : ℤ) (ErrMsg : String) :
    CStreamingFile :=
  if cxt.Download then sf.note [.Download ErrCode ErrMsg] else sf

/-- `CloseFile` for the context at the front. -/
def closeFront (sf : CStreamingFile) (cxt : CContext) : CStreamingFile :=
  (sf.note cxt.closing).setFront cxt.CloseFile

/-! ### The queue and the number of downloads behind each operation -/

section Fields

variable (sf : CStreamingFile) (events : List Event) (cxt : CContext)

@[simp] theorem m_vContext_note : (sf.note events).m_vContext = sf.m_vContext := rfl

@[simp] theorem m_vContext_Lock : (sf.Lock).m_vContext = sf.m_vContext := rfl

@[simp] theorem m_vContext_Unlock : (sf.Unlock).m_vContext = sf.m_vContext := rfl

@[simp] theorem m_vContext_setFront :
    (sf.setFront cxt).m_vContext = cxt :: sf.m_vContext.tail := rfl

@[simp] theorem m_vContext_PopFront : (sf.PopFront).m_vContext = sf.m_vContext.tail := rfl

@[simp] theorem m_vContext_closeFront :
    (sf.closeFront cxt).m_vContext = cxt.CloseFile :: sf.m_vContext.tail := rfl

@[simp] theorem m_vContext_callDownload (ErrCode : ℤ) (ErrMsg : String) :
    (sf.callDownload cxt ErrCode ErrMsg).m_vContext = sf.m_vContext := by
  unfold callDownload
  split_ifs <;> rfl

@[simp] theorem m_maxDownloading_note :
    (sf.note events).m_maxDownloading = sf.m_maxDownloading := rfl

@[simp] theorem m_maxDownloading_Lock : (sf.Lock).m_maxDownloading = sf.m_maxDownloading := rfl

@[simp] theorem m_maxDownloading_Unlock : (sf.Unlock).m_maxDownloading = sf.m_maxDownloading := rfl

@[simp] theorem m_maxDownloading_setFront :
    (sf.setFront cxt).m_maxDownloading = sf.m_maxDownloading := rfl

@[simp] theorem m_maxDownloading_PopFront :
    (sf.PopFront).m_maxDownloading = sf.m_maxDownloading := rfl

@[simp] theorem m_maxDownloading_closeFront :
    (sf.closeFront cxt).m_maxDownloading = sf.m_maxDownloading := rfl

@[simp] theorem m_maxDownloading_callDownload (ErrCode : ℤ) (ErrMsg : String) :
    (sf.callDownload cxt ErrCode ErrMsg).m_maxDownloading = sf.m_maxDownloading := by
  unfold callDownload
  split_ifs <;> rfl

end Fields

/-! ### The branches -/

def download (sf : CStreamingFile) (w : World) (res : ℤ) (errMsg : String) : CStreamingFile :=
  let sf := sf.Lock
  match sf.m_vContext with
  | [] => sf.Unlock.postProcessing w
  | cxt :: _ =>
    let cxt := cxt.failing res errMsg
    let sf := (sf.setFront cxt).Unlock
    let sf := sf.callDownload cxt cxt.ErrCode cxt.ErrMsg
    let sf := ((sf.Lock.closeFront cxt).PopFront).Unlock
    sf.postProcessing w

/-- The context of a download that the server has started while the queue is empty. -/
def started (w : World) (localFile remoteFile : String) (flags : ℕ) (initSize : ℤ) : CContext :=
  let c : CContext :=
    { Download := false, Transferring := false, Uploading := false, Flags := flags
      LocalFile := localFile, FilePath := remoteFile }
  { c.OpenLocalWrite (w.opening 0) with InitSize := initSize }

def startDownloading (sf : CStreamingFile) (w : World) (fileSize : ℕ)
    (localFile remoteFile : String) (flags : ℕ) (initSize : ℤ) : CStreamingFile :=
  let sf := sf.Lock
  let sf :=
    if sf.m_vContext = [] then sf.PushBack (started w localFile remoteFile flags initSize) else sf
  let sf := sf.Unlock
  match sf.m_vContext with
  | [] => sf
  | cxt :: _ =>
    let cxt :=
      { cxt with FileSize := fileSize, InitSize := if cxt.InitSize < 0 then 0 else cxt.InitSize }
    match cxt.File with
    | none => (sf.setFront cxt).note [.panic]
    | some f =>
      -- the error of `Truncate`, for a negative size or a file that is read, is ignored
      if f.descriptor.offset > initSize ∧ 0 ≤ initSize ∧ f.writable then
        sf.setFront
          { cxt with File := some { f with content := Posix.truncate f.content initSize.toNat } }
      else sf.setFront cxt

def downloading (sf : CStreamingFile) (bytes : Content) : CStreamingFile :=
  let sf := sf.Lock
  match sf.m_vContext with
  | [] => sf.Unlock
  | cxt :: _ =>
    let cxt := cxt.Write bytes
    let sf := sf.setFront cxt
    match cxt.File with
    | none => sf.note [.panic]
    | some f =>
      let sf := sf.Unlock
      if cxt.Transferring then sf.note [.Transferring f.descriptor.offset] else sf

/-- A context whose upload has failed is closed, called back and removed. -/
def removeFailed (sf : CStreamingFile) (cxt : CContext) (abort : Bool) : CStreamingFile :=
  let sf := sf.closeFront cxt
  let sf := sf.callDownload cxt cxt.ErrCode cxt.ErrMsg
  let sf := sf.Lock.PopFront.Unlock
  if abort then sf.note [.AbortJob] else sf

/-- The end of an upload that has failed. -/
def endFailed (sf : CStreamingFile) (w : World) (cxt : CContext) (abort : Bool) :
    CStreamingFile :=
  (sf.removeFailed cxt abort).postProcessing w

end CStreamingFile

/-- The first sending loop from the `k`-th chunk on: the context, what is done, and the number of
bytes that was read last. -/
def sendLoop (w : World) (k : ℕ) (cxt : CContext) : CContext × List Event × ℕ :=
  match _h : cxt.Read with
  | (.error _, cxt) => (cxt, [], 0)
  | (.ok bytes, read) =>
    let sending := Event.SendRequest (.Uploading bytes) (w.chunk k).sent
    if ¬ (w.chunk k).sent ∨ w.bytesInSendingBuffer k > 40 * STREAM_CHUNK_SIZE then
      (read.answered (w.chunk k), [sending], bytes.length)
    else
      let (cxt, events, n) := sendLoop w (k + 1) read
      (cxt, sending :: events, n)
termination_by cxt.unread.length
decreasing_by
  rw [cxt.unread_of_Read_ok _h, List.length_drop]
  exact Nat.sub_lt (List.length_pos_iff.2 (cxt.Read_ok _h).1) (by decide)

/-- `UploadBackup`, for the client queue; its answer is ignored. -/
def backup (w : World) (cxt : CContext) : List Event :=
  if w.IsAvailable then
    [.SendRequest (.UploadBackup cxt.FilePath cxt.Flags cxt.FileSize cxt.InitSize) w.backup]
  else []

/-- The end of the file: `UploadCompleted`, with no bytes. -/
def complete (w : World) (cxt : CContext) : CContext × List Event :=
  ({ cxt with Sent := true }.answered w.completed,
    .SendRequest (.UploadCompleted []) w.completed.sent ::
      if cxt.QueueOk then [.EndJob] else [])

/-- An upload that the server has accepted: the chunks that go out at once, and `UploadCompleted` if
the last read was short. -/
def beginUpload (w : World) (cxt : CContext) : CContext × List Event :=
  let cxt := { cxt with QueueOk := w.StartJob }
  let begun := .StartJob :: backup w cxt
  let (cxt, events, n) := sendLoop w 0 cxt
  if ¬ cxt.HasError ∧ n < STREAM_CHUNK_SIZE then
    let (cxt, completed) := complete w cxt
    (cxt, begun ++ events ++ completed)
  else (cxt, begun ++ events)

namespace CStreamingFile

def upload (sf : CStreamingFile) (w : World) (res : ℤ) (errMsg : String) (initSize : ℤ) :
    CStreamingFile :=
  let sf := sf.Lock
  match sf.m_vContext with
  | [] => sf.Unlock
  | cxt :: _ =>
    let cxt := { cxt with InitSize := initSize }
    if res ≠ 0 ∨ errMsg ≠ "" then
      let cxt := cxt.failing res errMsg
      (sf.setFront cxt).Unlock.endFailed w cxt cxt.QueueOk
    else
      -- `Unlock` is deferred to the end
      let (cxt, events) := beginUpload w cxt
      let sf := (sf.note events).setFront cxt
      (if cxt.HasError then sf.endFailed w cxt cxt.QueueOk else sf).Unlock

/-- What the answer to `Uploading` does with the context at the front, if the server has written the
chunk and `UploadCompleted` has not been sent; and whether the context is noted as failed. -/
def sendNext (w : World) (context : CContext) : CContext × List Event × Bool :=
  match context.Read with
  | (.error err, context) =>
    (context.failing CANNOT_OPEN_LOCAL_FILE_FOR_READING err, [], true)
  | (.ok bytes, context) =>
    let context := context.answered (w.chunk 0)
    let sending := Event.SendRequest (.Uploading bytes) (w.chunk 0).sent
    if bytes.length < STREAM_CHUNK_SIZE then
      -- the buffer that is sent with `UploadCompleted` still holds the chunk
      ({ context with Sent := true }.answered w.completed,
        [sending, .SendRequest (.UploadCompleted bytes) w.completed.sent],
        ¬ (w.chunk 0).sent ∨ ¬ w.completed.sent)
    else (context, [sending], ¬ (w.chunk 0).sent)

/-- The same for any answer to `Uploading`. -/
def acknowledged (w : World) (uploaded res : ℤ) (errMsg : String) (context : CContext) :
    CContext × List Event × Bool :=
  if uploaded < 0 ∨ res ≠ 0 ∨ errMsg ≠ "" then (context.failing res errMsg, [], true)
  else if ¬ context.Sent then sendNext w context
  else (context, [], false)

def uploading (sf : CStreamingFile) (w : World) (uploaded res : ℤ) (errMsg : String) :
    CStreamingFile :=
  let sf := sf.Lock
  match sf.m_vContext with
  | [] => sf.Unlock
  | context :: _ =>
    let (context, events, noted) := acknowledged w uploaded res errMsg context
    let sf := ((sf.note events).setFront context).Unlock
    if noted ∧ context.HasError then sf.endFailed w context false
    else if context.Transferring then sf.note [.Transferring uploaded]
    else sf

def uploadCompleted (sf : CStreamingFile) (w : World) : CStreamingFile :=
  let sf := sf.Lock
  match sf.m_vContext with
  | [] => sf.Unlock.postProcessing w
  | cxt :: _ =>
    if cxt.IsOpen then
      let sf := sf.Unlock.callDownload cxt 0 ""
      let sf := ((sf.Lock.closeFront cxt).PopFront).Unlock
      sf.postProcessing w
    else
      let sf := (sf.setFront { cxt with Sent := false, QueueOk := false }).Unlock
      sf.postProcessing w

end CStreamingFile

/-- A reply of the server, with what is loaded from it; without an error of its own, `Uploading` has
`res = 0` and an empty message. -/
inductive Reply
  | Download (res : ℤ) (errMsg : String)
  | StartDownloading (fileSize : ℕ) (localFile remoteFile : String) (flags : ℕ) (initSize : ℤ)
  | Downloading (bytes : Content)
  | UploadBackup
  | Upload (res : ℤ) (errMsg : String) (initSize : ℤ)
  | Uploading (uploaded res : ℤ) (errMsg : String)
  | UploadCompleted
  /-- Any other request. -/
  | other
deriving DecidableEq, Repr

namespace CStreamingFile

def requestProcessed (sf : CStreamingFile) (w : World) : Reply → CStreamingFile
  | .Download res errMsg => sf.download w res errMsg
  | .StartDownloading fileSize localFile remoteFile flags initSize =>
    sf.startDownloading w fileSize localFile remoteFile flags initSize
  | .Downloading bytes => sf.downloading bytes
  | .Upload res errMsg initSize => sf.upload w res errMsg initSize
  | .Uploading uploaded res errMsg => sf.uploading w uploaded res errMsg
  | .UploadCompleted => sf.uploadCompleted w
  | .UploadBackup | .other => sf

end CStreamingFile

end SocketPro.Go.GFile
