import SocketPro.Handler.Accounts
import SocketPro.Foundation.Run

/-!
# The callback queues of the Java `CAsyncServiceHandler`

Several handlers, shared by threads and by the callbacks of the core library, on sockets that answer
in order. `SendRequest` takes `m_csSend`, reads `m_bBatching` and adds its entry under `m_cs`, and
calls the core; after a refusal it clears the queue it added to, with `m_csSend` released.
`StartBatching`, `CommitBatching`, `AbortBatching` and `AbortJob` change the queues and call the
core under `m_cs`; `GetAsyncResultHandler`, `AppendTo` and `CleanCallbacks` change them under
`m_cs`.

Each call is cut where it takes or leaves a lock and at the calls of the core. Threads have no
identity in the code, so a handler lists the calls in progress by the point they have reached.

**The core** of each socket keeps the requests on the wire, in a job of the client queue and in its
batch. The server answers the wire in order, and can send other frames at any time.

`State.OneOutcome` is what the handlers owe their callers. `Orderly` is the condition on the steps
under which they do; that this is enough is proved in the next module.
-/

namespace SocketPro.Java.AsyncHandler

open Handler

variable {κ : Type}

/-! ### One handler -/

/-- A handler with its socket, and the calls in progress on it. -/
structure CAsyncServiceHandler (κ : Type) where
  m_kvCallback : List (Entry κ)
  m_kvBatching : List (Entry κ)
  m_bBatching : Bool
  /-- `m_nQIndex` of the client queue. -/
  m_nQIndex : ℕ
  /-- The holder of `m_csSend`: its entry is added, the core not yet called. -/
  sending : Option (Call κ)
  /-- The core refused the request, the queue is not yet cleared. -/
  refused : List (Call κ)
  /-- The answers of entries that were removed, before their callbacks. -/
  answering : List (Entry κ × AnswerKind)
  core : Transit.Sender (Request κ)

/-- The steps on one handler. -/
inductive Op
  /-- The core's `SendRequest` returns to the holder of `m_csSend`. -/
  | send (sent : Bool)
  /-- `SendRequest` without callbacks. -/
  | sendPlain (reqId : UInt16) (sent : Bool)
  /-- The `i`-th refused call clears the queue. -/
  | clear (i : ℕ)
  | startBatching (ok : Bool)
  | commitBatching (r : CommitResult)
  | abortBatching (ok : Bool)
  /-- `StartJob` up to its core call. -/
  | startJob
  | coreStartJob (ok : Bool)
  | endJob (ok : Bool)
  | abortJob (ok : Bool)
  /-- The first request on the wire is answered: `onRR` or `OnSE` up to and with
  `GetAsyncResultHandler`. -/
  | respond (kind : AnswerKind)
  /-- The same for a frame that answers no request. -/
  | frame (kind : AnswerKind) (reqId : UInt16)
  /-- The callback of the `i`-th answer. -/
  | answer (i : ℕ)
  | clean (canceled : Bool)
deriving DecidableEq

namespace CAsyncServiceHandler

variable (h : CAsyncServiceHandler κ)

/-- The constructor. -/
def new : CAsyncServiceHandler κ where
  m_kvCallback := []
  m_kvBatching := []
  m_bBatching := false
  m_nQIndex := 0
  sending := none
  refused := []
  answering := []
  core := {}

/-- The entries in the queues. -/
def queued : List (Entry κ) := h.m_kvCallback ++ h.m_kvBatching

/-- The queue that a call adds to and clears. -/
def queueOf (batching : Bool) : List (Entry κ) :=
  if batching then h.m_kvBatching else h.m_kvCallback

def setQueue (batching : Bool) (q : List (Entry κ)) : CAsyncServiceHandler κ :=
  if batching then { h with m_kvBatching := q } else { h with m_kvCallback := q }

/-- `SendRequest` under both locks. -/
def add (kv : Entry κ) : CAsyncServiceHandler κ :=
  let batching := h.m_bBatching
  { h.setQueue batching (h.queueOf batching ++ [kv]) with sending := some ⟨kv, batching⟩ }

/-- The core's `SendRequest`. -/
def send (c : Call κ) (sent : Bool) : CAsyncServiceHandler κ :=
  if sent then { h with sending := none, core := h.core.accept (.tracked c.kv) }
  else { h with sending := none, refused := h.refused ++ [c] }

/-- `SendRequest` without callbacks; an id of the framework makes it throw. -/
def sendPlain (reqId : UInt16) (sent : Bool) : CAsyncServiceHandler κ :=
  if reqId ≤ idReservedTwo then h
  else if sent then { h with core := h.core.accept (.plain reqId) }
  else h

/-- The end of a failed `SendRequest`: `clear` removes whatever is in the queue. -/
def clear (i : ℕ) (c : Call κ) : CAsyncServiceHandler κ × Events κ :=
  ({ h.setQueue c.batching [] with refused := h.refused.eraseIdx i },
    { failed := [(c, h.queueOf c.batching)] })

/-- `StartBatching`, which sets `m_bBatching` to false. -/
def StartBatching (ok : Bool) : CAsyncServiceHandler κ :=
  { h with m_bBatching := false, core := if ok then h.core.startBatch else h.core }

/-- `CommitBatching`; nothing is given up when the core drops the batch. -/
def CommitBatching [DecidableEq κ] (r : CommitResult) : CAsyncServiceHandler κ × Events κ :=
  ({ h with
      m_kvCallback := h.m_kvCallback ++ h.m_kvBatching
      m_kvBatching := []
      m_bBatching := false
      core := r.apply h.core },
    { aborts := [((r.lost h.core).filter (· ∈ h.queued), [])] })

/-- `AbortBatching`. -/
def AbortBatching [DecidableEq κ] (ok : Bool) : CAsyncServiceHandler κ × Events κ :=
  let dropped := if ok then entries h.core.inBatch else []
  ({ h with
      m_kvBatching := []
      m_bBatching := false
      core := if ok then h.core.dropBatch else h.core },
    { exits := h.m_kvBatching.map fun p ↦ (p, .givenUp true)
      aborts := [(dropped.filter (· ∈ h.queued), h.m_kvBatching)]
      invoked := h.m_kvBatching.flatMap fun p ↦ invoke p (.givenUp true) })

/-- Where `EraseBack(count)` begins. -/
def eraseFrom (count : ℤ) : ℕ :=
  let total : ℤ := h.m_kvCallback.length
  (total - min count total).toNat

/-- `EraseBack(count)`, the last entry first, in a call that drops the requests `dropped`. -/
def EraseBack [DecidableEq κ] (count : ℤ) (dropped : List (Entry κ)) :
    CAsyncServiceHandler κ × Events κ :=
  let erased := (h.m_kvCallback.drop (h.eraseFrom count)).reverse
  ({ h with m_kvCallback := h.m_kvCallback.take (h.eraseFrom count) },
    { exits := erased.map fun p ↦ (p, .givenUp true)
      aborts := [(dropped.filter (· ∈ h.queued), erased.reverse)]
      invoked := erased.flatMap fun p ↦ invoke p (.givenUp true) })

/-- `AbortJob`. -/
def AbortJob [DecidableEq κ] (ok : Bool) : CAsyncServiceHandler κ × Events κ :=
  let aborted : ℤ := h.m_kvCallback.length - h.m_nQIndex
  if ok then
    let r := h.EraseBack aborted (entries h.core.inJob)
    ({ r.1 with core := h.core.dropJob }, r.2)
  else (h, {})

/-- `GetAsyncResultHandler(reqId)`. -/
def GetAsyncResultHandler (reqId : UInt16) : Option (Entry κ) × CAsyncServiceHandler κ :=
  match h.m_kvCallback with
  | kv :: rest => if kv.reqId = reqId then (some kv, { h with m_kvCallback := rest }) else (none, h)
  | [] => (none, h)

/-- `onRR` and `OnSE` up to the callback, for a frame that should take the entry `expected`. -/
def deliver (kind : AnswerKind) (reqId : UInt16) (expected : Option (Entry κ)) :
    CAsyncServiceHandler κ × Events κ :=
  if kind = .result ∧ reqId = idInterrupt then (h, { answers := [(expected, none)] })
  else
    match h.GetAsyncResultHandler reqId with
    | (some kv, h) =>
      ({ h with answering := h.answering ++ [(kv, kind)] }, { answers := [(expected, some kv)] })
    | (none, h) => (h, { answers := [(expected, none)] })

/-- The first request on the wire is answered. -/
def respond [DecidableEq κ] (kind : AnswerKind) (r : Request κ) :
    CAsyncServiceHandler κ × Events κ :=
  let expected := r.entry.filter (· ∈ h.queued)
  { h with core := h.core.answered }.deliver kind r.reqId expected

/-- `AsyncResultHandler.invoke(m_ar)` of `onRR`, `rcb.ExceptionFromServer.invoke(...)` of `OnSE`. -/
def answer (i : ℕ) (kv : Entry κ) (kind : AnswerKind) : CAsyncServiceHandler κ × Events κ :=
  ({ h with answering := h.answering.eraseIdx i },
    { exits := [(kv, .answered kind)], invoked := invoke kv (.answered kind) })

/-- `CleanCallbacks`. -/
def CleanCallbacks (canceled : Bool) : CAsyncServiceHandler κ × Events κ :=
  let taken := h.m_kvBatching ++ h.m_kvCallback
  ({ h with m_kvCallback := [], m_kvBatching := [] },
    { exits := taken.map fun p ↦ (p, .givenUp canceled)
      invoked := taken.flatMap fun p ↦ invoke p (.givenUp canceled) })

/-- What a step does; `none` when it is not enabled. -/
def act [DecidableEq κ] : Op → Option (CAsyncServiceHandler κ × Events κ)
  | .send sent => h.sending.map fun c ↦ (h.send c sent, {})
  | .sendPlain reqId sent => some (h.sendPlain reqId sent, {})
  | .clear i => h.refused[i]?.map (h.clear i)
  | .startBatching ok => some (h.StartBatching ok, {})
  | .commitBatching r => some (h.CommitBatching r)
  | .abortBatching ok => some (h.AbortBatching ok)
  | .startJob => some ({ h with m_nQIndex := h.m_kvCallback.length }, {})
  | .coreStartJob ok => some (if ok then { h with core := h.core.startJob } else h, {})
  | .endJob ok => some (if ok then { h with core := h.core.endJob } else h, {})
  | .abortJob ok => some (h.AbortJob ok)
  | .respond kind => h.core.wire.head?.map (h.respond kind)
  | .frame kind reqId => some (h.deliver kind reqId none)
  | .answer i => h.answering[i]?.map fun a ↦ h.answer i a.1 a.2
  | .clean canceled => some (h.CleanCallbacks canceled)

end CAsyncServiceHandler

/-! ### Several handlers -/

/-- The handlers, in the order they were constructed. -/
structure State (κ : Type) where
  handlers : List (CAsyncServiceHandler κ)
  /-- The number of entries made so far. -/
  made : ℕ
  events : Events κ

/-- The steps of the threads and of the core's callbacks. -/
inductive Action (κ : Type)
  | newHandler
  /-- `SendRequest` with callbacks, up to its core call. -/
  | add (i : ℕ) (reqId : UInt16) (rcb : CResultCb κ)
  | on (i : ℕ) (op : Op)
  /-- The core has merged the client queue of the `i`-th handler's socket into that of the `j`-th
  one's, and `AppendTo` does the same with the callbacks. -/
  | appendTo (i j : ℕ)
deriving DecidableEq

namespace State

variable (s : State κ)

/-- `SendRequest` up to its core call; an id of the framework makes it throw. -/
def add (i : ℕ) (h : CAsyncServiceHandler κ) (reqId : UInt16) (rcb : CResultCb κ) : State κ :=
  if reqId ≤ idReservedTwo then s
  else { s with handlers := s.handlers.set i (h.add ⟨reqId, rcb, s.made⟩), made := s.made + 1 }

/-- `AppendTo(to)` under both locks. -/
def AppendTo (i j : ℕ) (h other : CAsyncServiceHandler κ) : State κ :=
  let merged := { other with
    m_kvCallback := other.m_kvCallback ++ h.m_kvCallback
    core := other.core.takeOver h.core.wire }
  let emptied := { h with m_kvCallback := [], core := { h.core with wire := [] } }
  { s with handlers := (s.handlers.set j merged).set i emptied }

/-- One step; `none` when it is not enabled. -/
def step [DecidableEq κ] (s : State κ) : Action κ → Option (State κ)
  | .newHandler => some { s with handlers := s.handlers ++ [.new] }
  | .add i reqId rcb =>
    s.handlers[i]?.bind fun h ↦
      if h.sending = none ∧ rcb.isGiven then some (s.add i h reqId rcb) else none
  | .on i op =>
    s.handlers[i]?.bind fun h ↦ (h.act op).map fun r ↦
      { s with handlers := s.handlers.set i r.1, events := s.events.append r.2 }
  | .appendTo i j =>
    match s.handlers[i]?, s.handlers[j]? with
    | some h, some other => if i = j then none else some (s.AppendTo i j h other)
    | _, _ => none

/-- Before the first handler. -/
def start : State κ := ⟨[], 0, {}⟩

end State

/-! ### What the handlers owe their callers -/

/-- The entries in a handler: in a queue, or in the hands of a call. -/
def CAsyncServiceHandler.held (h : CAsyncServiceHandler κ) : Multiset (Entry κ) :=
  (h.m_kvCallback : Multiset (Entry κ)) + (h.m_kvBatching : Multiset (Entry κ)) +
    (h.answering : Multiset (Entry κ × AnswerKind)).map Prod.fst

/-- The entries in the handlers. -/
def State.held (s : State κ) : Multiset (Entry κ) :=
  Tenancy.sumOf CAsyncServiceHandler.held s.handlers

/-- **One outcome for each request.** -/
def State.OneOutcome (s : State κ) : Prop := Handler.OneOutcome s.held s.made s.events

/-! ### The condition on the steps -/

namespace CAsyncServiceHandler

variable (h : CAsyncServiceHandler κ)

/-- No entry would be taken for an answer with this id. -/
def Passes (reqId : UInt16) : Prop := ∀ kv ∈ h.m_kvCallback.head?, kv.reqId ≠ reqId

/-- The answer to a request finds its entry in front, unless the entry of a refused call is there;
an answer to a request without an entry has another id than the entry in front. -/
def Answers [DecidableEq κ] (r : Request κ) : Prop :=
  match r.entry.filter (· ∈ h.m_kvCallback) with
  | some _ => ∀ kv ∈ h.m_kvCallback.head?, kv ∉ h.refused.map Call.kv
  | none => h.Passes r.reqId

/-- The entries whose requests are not on the wire. -/
def unwritten : List (Entry κ) :=
  entries h.core.inJob ++ entries h.core.inBatch ++ h.sending.toList.map Call.kv

/-- The conditions on the steps of one handler.
* `clear`: the entry of the failed call is the only one in its queue.
* `commitBatching`, `abortBatching`: no request with an entry in the queue is dropped.
* `abortJob`: the entries behind `m_nQIndex` are those of the job.
* `respond`, `frame`: no other entry is in front, or not with the id of the answer. -/
def Orderly [DecidableEq κ] : Op → Prop
  | .clear i => ∀ c ∈ h.refused[i]?, h.queueOf c.batching = [c.kv]
  | .commitBatching r => ∀ kv ∈ r.lost h.core, kv ∉ h.m_kvCallback
  | .abortBatching true => ∀ kv ∈ entries h.core.inBatch, kv ∉ h.m_kvCallback
  | .abortJob true =>
    h.m_kvCallback.drop h.m_nQIndex = (entries h.core.inJob).filter (· ∈ h.m_kvCallback)
  | .respond _ => ∀ r ∈ h.core.wire.head?, h.Answers r
  | .frame kind reqId => kind = .result ∧ reqId = idInterrupt ∨ h.Passes reqId
  | _ => True

end CAsyncServiceHandler

/-- The conditions on the steps. A handler is appended to another one with an empty queue, or when
all entries of both are of requests on the wire. -/
def State.Orderly [DecidableEq κ] (s : State κ) : Action κ → Prop
  | .on i op => ∀ h ∈ s.handlers[i]?, h.Orderly op
  | .appendTo i j => ∀ h ∈ s.handlers[i]?, ∀ other ∈ s.handlers[j]?, h.m_kvCallback = [] ∨
    (∀ kv ∈ other.m_kvCallback, kv ∉ other.unwritten) ∧
      ∀ kv ∈ h.m_kvCallback, kv ∈ entries h.core.wire
  | _ => True

instance (h : CAsyncServiceHandler κ) (reqId : UInt16) : Decidable (h.Passes reqId) := by
  unfold CAsyncServiceHandler.Passes
  infer_instance

instance [DecidableEq κ] (h : CAsyncServiceHandler κ) (r : Request κ) : Decidable (h.Answers r) := by
  unfold CAsyncServiceHandler.Answers
  split <;> infer_instance

instance [DecidableEq κ] (h : CAsyncServiceHandler κ) (op : Op) : Decidable (h.Orderly op) := by
  unfold CAsyncServiceHandler.Orderly
  split <;> infer_instance

instance [DecidableEq κ] (s : State κ) (a : Action κ) : Decidable (s.Orderly a) := by
  cases a <;> unfold State.Orderly <;> infer_instance

end SocketPro.Java.AsyncHandler
