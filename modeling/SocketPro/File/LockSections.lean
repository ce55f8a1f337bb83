import SocketPro.Foundation.Run
import SocketPro.File.StreamingFile

/-!
# The deque of files between locks

`PostProcess`, `Cancel`, `OnPostProcessing`, `OnResultReturned` and `CleanCallbacks` of one
`CStreamingFile`, called from any threads. Each works at `m_vContext` under `m_csFile` and releases
it to call the user's code; what a method does between two releases is one step here, and a method
that is in the user's code is a `Gap`, to be resumed at any time. `OnResultReturned` ends with
`OnPostProcessing`, which takes the lock once more: that is a step of its own.

Contexts are numbered in the order they are pushed. The state records the contexts whose `Download`
or `Discarded` was called and those that were removed from the deque, in the order it happened.

The requests under way carry the callback `Discarded` of their context, which `CleanCallbacks` of
`CAsyncServiceHandler` calls. An exception callback is not given to any of them. Removing the front
of an empty deque, which is not defined, leaves it empty here.
-/

namespace SocketPro.FileStream

/-- A method that has released the lock to call the user's code, with the context it did it for. -/
inductive Gap
  | Cancel (id : ℕ)
  | OnPostProcessing (id : ℕ)
  /-- `OnResultReturned` for `idDownload`, with the front, if there was one. -/
  | idDownload (id : Option ℕ)
  /-- `OnResultReturned` for `idUpload` or `idUploading`, with an error, and with `AbortJob` to come. -/
  | failed (id : ℕ) (abortJob : Bool)
  /-- `OnResultReturned` for `idUploadCompleted`, with the front, if it was open. -/
  | idUploadCompleted (id : Option ℕ)
deriving DecidableEq, Repr

/-- The context that the method goes on to remove. -/
def Gap.target : Gap → Option ℕ
  | Cancel id | OnPostProcessing id | failed id _ => some id
  | idDownload id | idUploadCompleted id => id

/-- The results of requests, and the message that a download starts. -/
inductive Result
  | idDownload (res : ℤ) (errMsg : String)
  | idStartDownloading (file : LocalOpen)
  | idDownloading
  | idUploadBackup
  | idUpload (res : ℤ) (errMsg : String)
  | idUploading (uploaded res : ℤ) (errMsg : String)
  | idUploadCompleted

structure Streaming where
  m_vContext : List CContext
  pushed : ℕ
  /-- The requests under way that carry a callback. -/
  m_vCallback : List Request
  gaps : List Gap
  notified : List ℕ
  removed : List ℕ
deriving DecidableEq

inductive Step
  | PostProcess (uploading download discarded : Bool)
  | Cancel
  | OnPostProcessing (env : ℕ → Opening)
  | OnResultReturned (result : Result) (env : Sending)
  | CleanCallbacks
  /-- A method takes the lock again; `AbortJob` calls the callbacks of some requests under way. -/
  | resume (g : Gap) (aborted : List ℕ)

namespace Streaming

def initial : Streaming := ⟨[], 0, [], [], [], []⟩

/-- What a loop over one end of the deque leaves: the contexts, those it removed, and the one whose
callback it calls. -/
structure Loop where
  contexts : List CContext
  removed : List ℕ
  call : Option ℕ
deriving DecidableEq, Repr

/-- A loop that goes on with fewer contexts. -/
def Loop.after (id : ℕ) (l : Loop) : Loop := { l with removed := id :: l.removed }

/-- The loop of `Cancel`, from the back of the deque. -/
def cancelLoop : List CContext → Loop
  | [] => ⟨[], [], none⟩
  | back :: rest =>
    if back.IsOpen then ⟨back :: rest, [], none⟩
    else if back.Discarded then ⟨back :: rest, [], some back.id⟩
    else (cancelLoop rest).after back.id

/-- The second loop of `OnPostProcessing`. -/
def popLoop : List CContext → Loop
  | [] => ⟨[], [], none⟩
  | it :: rest =>
    if it.HasError then
      if it.Download then ⟨{ it with file := none } :: rest, [], some it.id⟩
      else (popLoop rest).after it.id
    else ⟨it :: rest, [], none⟩

section Sections

variable (s : Streaming)

/-- The state after a loop that calls user code in a gap of kind `gap`. -/
def looped (contexts : List CContext) (l : Loop) (gap : ℕ → Gap) : Streaming :=
  { s with
    m_vContext := contexts
    removed := s.removed ++ l.removed
    notified := s.notified ++ l.call.toList
    gaps := s.gaps ++ l.call.toList.map gap }

/-- `Cancel` from the lock on. -/
def Cancel : Streaming :=
  let l := cancelLoop s.m_vContext.reverse
  s.looped l.contexts.reverse l .Cancel

/-- The second loop of `OnPostProcessing` from the lock on. -/
def popErrors : Streaming :=
  let l := popLoop s.m_vContext
  s.looped l.contexts l .OnPostProcessing

/-- The requests of contexts that have a callback to carry. -/
def carried (v : List CContext) (l : List Request) : List Request :=
  l.filter fun r ↦ v.any fun c ↦ c.id == r.owner && c.Discarded

/-- `OnPostProcessing`, of which the first loop opens files. -/
def OnPostProcessing (maxDownloading : ℕ) (env : ℕ → Opening) : Streaming :=
  let opened := openFiles maxDownloading env 0 s.m_vContext
  popErrors { s with
    m_vContext := opened.1
    m_vCallback := s.m_vCallback ++ carried s.m_vContext opened.2 }

/-- `if (cb) cb(..);` in the gap `g`. -/
def call (given : Bool) (id : ℕ) (g : Gap) : Streaming :=
  { s with
    notified := if given then s.notified ++ [id] else s.notified
    gaps := s.gaps ++ [g] }

/-- The front is removed. -/
def popFront : Streaming :=
  { s with
    m_vContext := s.m_vContext.tail
    removed := s.removed ++ (s.m_vContext.head?.map CContext.id).toList }

/-- The back is removed. -/
def popBack : Streaming :=
  { s with
    m_vContext := s.m_vContext.dropLast
    removed := s.removed ++ (s.m_vContext.getLast?.map CContext.id).toList }

/-- A transfer for the front, with an error if it fails. -/
def transfer (env : Sending) (abortJob : Bool) (t : Transfer) (rest : List CContext) : Streaming :=
  let ctx := t.result env
  let s := { s with
    m_vContext := ctx :: rest
    m_vCallback := s.m_vCallback ++ carried [ctx] t.requests }
  if t.ok = false ∧ ctx.HasError then s.call ctx.Download ctx.id (.failed ctx.id abortJob) else s

/-- The callback of an answered request is taken out. -/
def answered (reqId : RequestId) : Streaming :=
  match s.m_vCallback with
  | r :: rest => if r.reqId = reqId then { s with m_vCallback := rest } else s
  | [] => s

/-- `OnResultReturned` for `idDownload`. -/
def onDownload (res : ℤ) (errMsg : String) : Streaming :=
  match s.m_vContext with
  | [] => { s with gaps := s.gaps ++ [.idDownload none] }
  | context :: rest =>
    call { s with m_vContext := { context with ErrorCode := res, ErrMsg := errMsg } :: rest }
      context.Download context.id (.idDownload (some context.id))

/-- `OnResultReturned` for `idStartDownloading`. -/
def onStartDownloading (file : LocalOpen) : Streaming :=
  match s.m_vContext with
  | [] => { s with
      m_vContext := [(CContext.new s.pushed false false false).openLocal file]
      pushed := s.pushed + 1 }
  | _ => s

/-- `OnResultReturned` for `idUpload`. -/
def onUpload (env : Sending) (res : ℤ) (errMsg : String) : Streaming :=
  match s.m_vContext with
  | [] => s
  | context :: rest =>
    if res ≠ 0 ∨ errMsg ≠ "" then
      s.call context.Download context.id (.failed context.id context.QueueOk)
    else
      let context := { context with QueueOk := env.startJob }
      let s := { s with
        m_vCallback := s.m_vCallback ++ carried [context]
          (if env.queueEnabled && env.backup then [⟨context.id, .idUploadBackup⟩] else []) }
      s.transfer env context.QueueOk (sendFile env context) rest

/-- `OnResultReturned` for `idUploading`. -/
def onUploading (env : Sending) (uploaded res : ℤ) (errMsg : String) : Streaming :=
  match s.m_vContext with
  | [] => s
  | context :: rest =>
    if uploaded < 0 ∨ res ≠ 0 ∨ errMsg ≠ "" then
      let context := { context with ErrorCode := res, ErrMsg := errMsg }
      let s := { s with m_vContext := context :: rest }
      if context.HasError then s.call context.Download context.id (.failed context.id false) else s
    else if context.Sent then s
    else s.transfer env false (sendNext env context) rest

/-- `OnResultReturned` for `idUploadCompleted`. -/
def onUploadCompleted : Streaming :=
  match s.m_vContext with
  | [] => { s with gaps := s.gaps ++ [.idUploadCompleted none] }
  | context :: rest =>
    if context.IsOpen then
      s.call context.Download context.id (.idUploadCompleted (some context.id))
    else { s with
      m_vContext := { context with Sent := false, QueueOk := false } :: rest
      gaps := s.gaps ++ [.idUploadCompleted none] }

/-- `OnResultReturned` up to the first release of the lock, and the user's code behind it. -/
def OnResultReturned (env : Sending) : Result → Streaming
  | .idDownload res errMsg => (s.answered .idDownload).onDownload res errMsg
  | .idStartDownloading file => s.onStartDownloading file
  | .idDownloading => s
  | .idUploadBackup => s.answered .idUploadBackup
  | .idUpload res errMsg => (s.answered .idUpload).onUpload env res errMsg
  | .idUploading uploaded res errMsg => (s.answered .idUploading).onUploading env uploaded res errMsg
  | .idUploadCompleted => (s.answered .idUploadCompleted).onUploadCompleted

/-- `CleanCallbacks` swaps the deque away and calls `Discarded` of its contexts; that of
`CAsyncServiceHandler` then calls what the requests under way carry. -/
def CleanCallbacks : Streaming :=
  { s with
    m_vContext := []
    m_vCallback := []
    notified := s.notified ++ (s.m_vContext.filter CContext.Discarded).map CContext.id ++
      s.m_vCallback.map Request.owner
    removed := s.removed ++ s.m_vContext.map CContext.id }

/-- `AbortJob` -/
def abortJob (aborted : List ℕ) : Streaming :=
  { s with
    notified := s.notified ++ aborted.filter fun id ↦ s.m_vCallback.any fun r ↦ r.owner == id }

/-- A method goes on behind the user's code. -/
def afterGap (aborted : List ℕ) : Gap → Streaming
  | .Cancel _ => s.popBack.Cancel
  | .OnPostProcessing _ => s.popFront.popErrors
  | .idDownload _ => s.popFront
  | .failed _ abortJob => if abortJob then s.popFront.abortJob aborted else s.popFront
  | .idUploadCompleted _ =>
    match s.m_vContext with
    | [] => s
    | context :: _ => if context.IsOpen then s.popFront else s

end Sections

/-- One step; `none` when there is nothing to resume. -/
def step (maxDownloading : ℕ) (s : Streaming) : Step → Option Streaming
  | .PostProcess uploading download discarded => some { s with
      m_vContext := s.m_vContext ++ [.new s.pushed uploading download discarded]
      pushed := s.pushed + 1 }
  | .Cancel => some s.Cancel
  | .OnPostProcessing env => some (s.OnPostProcessing maxDownloading env)
  | .OnResultReturned result env => some (s.OnResultReturned env result)
  | .CleanCallbacks => some s.CleanCallbacks
  | .resume g aborted =>
    if g ∈ s.gaps then some (afterGap { s with gaps := s.gaps.erase g } aborted g) else none

/-- **Each queued file ends exactly once**: a context is in the deque until it is removed, which
happens once, behind the one call of a callback of it. -/
structure EndsOnce (s : Streaming) : Prop where
  removed_or_queued : ∀ id < s.pushed,
    s.removed.count id + (s.m_vContext.map CContext.id).count id = 1
  notified_once : ∀ id, s.notified.count id ≤ 1
  removed_notified : ∀ id ∈ s.removed, id ∈ s.notified
  /-- When no method is in the user's code. -/
  notified_removed : s.gaps = [] → ∀ id ∈ s.notified, id ∈ s.removed

end Streaming

end SocketPro.FileStream
