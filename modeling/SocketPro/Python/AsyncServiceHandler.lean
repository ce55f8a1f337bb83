import SocketPro.Foundation.Run
import SocketPro.Handler.Accounts

/-!
# The callback deques of the Python `CAsyncServiceHandler`

Several handlers, shared by threads and by the callbacks of the core library, on sockets that answer
in order. `SendRequest` asks the core whether it is batching, takes `_lock_Send_`, appends its entry
under `_lock_` and calls the core; after a refusal it pops the deque, with `_lock_Send_` released.
`StartBatching`, `AbortBatching` and `CommitBatching` change the deques under `_lock_` and call the
core without it. `CleanCallbacks` takes both deques under `_lock_` and invokes the callbacks
afterwards; `_GetAsyncResultHandler_` takes no lock and is one step.

Each call is cut where it takes or leaves a lock and at the calls of the core. Threads have no
identity in the code, so a handler lists the calls in progress by the point they have reached.

The core of each socket keeps the requests on the wire, in a job of the client queue and in its
batch. The server answers the wire in order, and can send other frames at any time.

`State.OneOutcome` is what the handlers owe their callers. `Orderly` is the condition on the steps
under which they do; that this is enough is proved in the next module.
-/

namespace SocketPro.Python.AsyncHandler

open Handler

variable {κ : Type}

/-! ### One handler -/

/-- A call of `SendRequest` with callbacks that has asked `IsBatching`. -/
structure Entering (κ : Type) where
  reqId : UInt16
  rcb : CResultCb κ
  batching : Bool
deriving DecidableEq

/-- The core call that is left to a call that has released `_lock_`. -/
inductive CoreCall
  | StartBatching
  | AbortBatching
  | CommitBatching
deriving DecidableEq

/-- A handler with its socket, and the calls in progress on it. -/
structure CAsyncServiceHandler (κ : Type) where
  m_kvCallback : List (Entry κ)
  m_kvBatching : List (Entry κ)
  entering : List (Entering κ)
  /-- The holder of `_lock_Send_`: its entry is appended, the core not yet called. -/
  sending : Option (Call κ)
  /-- The core refused the request, the deque is not yet popped. -/
  refused : List (Call κ)
  /-- The answers of entries that were removed, before their callbacks. -/
  answering : List (Entry κ × AnswerKind)
  /-- What the calls of `CleanCallbacks` have taken and not yet given up. -/
  cleaning : List (List (Entry κ))
  calling : List CoreCall
  core : Transit.Sender (Request κ)

/-- The steps on one handler. -/
inductive Op (κ : Type)
  /-- `SendRequest` with callbacks, up to and with `IsBatching`. -/
  | enter (reqId : UInt16) (rcb : CResultCb κ)
  /-- The core's `SendRequest` returns to the holder of `_lock_Send_`. -/
  | send (sent : Bool)
  /-- `SendRequest` without callbacks. -/
  | sendPlain (reqId : UInt16) (sent : Bool)
  /-- The `i`-th refused call pops the deque. -/
  | pop (i : ℕ)
  | startBatching
  | coreStartBatching (ok : Bool)
  | abortBatching
  | coreAbortBatching (ok : Bool)
  | commitBatching
  | coreCommitBatching (r : CommitResult)
  /-- `StartJob` and `EndJob` of the client queue, which call the core only. -/
  | startJob (ok : Bool)
  | endJob (ok : Bool)
  /-- The first request on the wire is answered: `_OnRR_` or `_OnSE_` up to and with
  `_GetAsyncResultHandler_`. -/
  | respond (kind : AnswerKind)
  /-- The same for a frame that answers no request. -/
  | frame (kind : AnswerKind) (reqId : UInt16)
  /-- The callback of the `i`-th answer. -/
  | answer (i : ℕ)
  /-- `CleanCallbacks` under `_lock_`. -/
  | clean
  /-- The `i`-th call of `CleanCallbacks` gives up its next entry. -/
  | discard (i : ℕ) (canceled : Bool)
deriving DecidableEq

namespace CAsyncServiceHandler

variable (h : CAsyncServiceHandler κ)

/-- The constructor. -/
def new : CAsyncServiceHandler κ where
  m_kvCallback := []
  m_kvBatching := []
  entering := []
  sending := none
  refused := []
  answering := []
  cleaning := []
  calling := []
  core := {}

/-- The entries in the deques, those of the batch last. -/
def queued : List (Entry κ) := h.m_kvCallback ++ h.m_kvBatching

/-- The deque that a call appends to and pops. -/
def queueOf (batching : Bool) : List (Entry κ) :=
  if batching then h.m_kvBatching else h.m_kvCallback

def setQueue (batching : Bool) (q : List (Entry κ)) : CAsyncServiceHandler κ :=
  if batching then { h with m_kvBatching := q } else { h with m_kvCallback := q }

/-- `SendRequest` up to and with `IsBatching`; an id of the framework raises a `ValueError`. -/
def enter (reqId : UInt16) (rcb : CResultCb κ) : CAsyncServiceHandler κ :=
  if reqId ≤ idReservedTwo then h
  else { h with entering := h.entering ++ [⟨reqId, rcb, h.core.batch.isSome⟩] }

/-- The `k`-th entering call under both locks. -/
def append (k : ℕ) (call : Entering κ) (ticket : ℕ) : CAsyncServiceHandler κ :=
  let kv : Entry κ := ⟨call.reqId, call.rcb, ticket⟩
  { h.setQueue call.batching (h.queueOf call.batching ++ [kv]) with
    entering := h.entering.eraseIdx k
    sending := some ⟨kv, call.batching⟩ }

/-- The core's `SendRequest`. -/
def send (c : Call κ) (sent : Bool) : CAsyncServiceHandler κ :=
  if sent then { h with sending := none, core := h.core.accept (.tracked c.kv) }
  else { h with sending := none, refused := h.refused ++ [c] }

/-- `SendRequest` without callbacks. -/
def sendPlain (reqId : UInt16) (sent : Bool) : CAsyncServiceHandler κ :=
  if reqId ≤ idReservedTwo then h
  else if sent then { h with core := h.core.accept (.plain reqId) }
  else h

/-- The end of a failed `SendRequest`: the last entry is popped, whosoever it is; `pop` raises an
`IndexError` when there is none. -/
def pop (i : ℕ) (c : Call κ) : CAsyncServiceHandler κ × Events κ :=
  ({ h.setQueue c.batching (h.queueOf c.batching).dropLast with refused := h.refused.eraseIdx i },
    { failed := [(c, (h.queueOf c.batching).getLast?.toList)] })

/-- `StartBatching` under `_lock_`. -/
def StartBatching : CAsyncServiceHandler κ :=
  { h with m_kvBatching := [], calling := h.calling ++ [.StartBatching] }

/-- `AbortBatching` under `_lock_`. -/
def AbortBatching : CAsyncServiceHandler κ × Events κ :=
  ({ h with m_kvBatching := [], calling := h.calling ++ [.AbortBatching] },
    { exits := h.m_kvBatching.map fun p ↦ (p, .givenUp true)
      invoked := h.m_kvBatching.flatMap fun p ↦ invoke p (.givenUp true) })

/-- `CommitBatching` under `_lock_`. -/
def CommitBatching : CAsyncServiceHandler κ :=
  { h with
    m_kvCallback := h.m_kvCallback ++ h.m_kvBatching
    m_kvBatching := []
    calling := h.calling ++ [.CommitBatching] }

/-- A core call is made; `none` when no call has reached it. -/
def called (c : CoreCall) : Option (CAsyncServiceHandler κ) :=
  if c ∈ h.calling then some { h with calling := h.calling.erase c } else none

/-- The core's `AbortBatching`. Entries in a deque whose requests it drops are forgotten. -/
def coreAbortBatching [DecidableEq κ] (ok : Bool) : CAsyncServiceHandler κ × Events κ :=
  if ok then
    ({ h with core := h.core.dropBatch },
      { aborts := [((entries h.core.inBatch).filter (· ∈ h.queued), [])] })
  else (h, {})

/-- The core's `CommitBatching`; nothing is given up when the core drops the batch. -/
def coreCommitBatching [DecidableEq κ] (r : CommitResult) : CAsyncServiceHandler κ × Events κ :=
  ({ h with core := r.apply h.core },
    { aborts := [((r.lost h.core).filter (· ∈ h.queued), [])] })

/-- `_GetAsyncResultHandler_(reqId)`. -/
def GetAsyncResultHandler (reqId : UInt16) : Option (Entry κ) × CAsyncServiceHandler κ :=
  match h.m_kvCallback with
  | kv :: rest => if kv.reqId = reqId then (some kv, { h with m_kvCallback := rest }) else (none, h)
  | [] => (none, h)

/-- `_OnRR_` and `_OnSE_` up to the callback, for a frame that should take the entry `expected`. -/
def deliver (kind : AnswerKind) (reqId : UInt16) (expected : Option (Entry κ)) :
    CAsyncServiceHandler κ × Events κ :=
  if kind = .result ∧ reqId = idInterrupt then (h, { answers := [(expected, none)] })
  else
    match h.GetAsyncResultHandler reqId with
    | (some kv, h) =>
      ({ h with answering := h.answering ++ [(kv, kind)] }, { answers := [(expected, some kv)] })
    | (none, h) => (h, { answers := [(expected, none)] })

/-- The first request on the wire is answered. -/
def respond [DecidableEq κ] (kind : AnswerKind) (r : Request κ) :
    CAsyncServiceHandler κ × Events κ :=
  let expected := r.entry.filter (· ∈ h.queued)
  { h with core := h.core.answered }.deliver kind r.reqId expected

/-- `rcb.AsyncResultHandler(ar)` of `_OnRR_`, `rcb.ExceptionFromServer(self, se)` of `_OnSE_`. -/
def answer (i : ℕ) (kv : Entry κ) (kind : AnswerKind) : CAsyncServiceHandler κ × Events κ :=
  ({ h with answering := h.answering.eraseIdx i },
    { exits := [(kv, .answered kind)], invoked := invoke kv (.answered kind) })

/-- `CleanCallbacks` under `_lock_`. -/
def CleanCallbacks : CAsyncServiceHandler κ :=
  { h with
    m_kvCallback := []
    m_kvBatching := []
    cleaning := h.cleaning ++ [h.m_kvBatching ++ h.m_kvCallback] }

/-- `kv[1].Discarded(self, self.Socket.CurrentRequestID == tagBaseRequestID.idCancel)`. -/
def discard (i : ℕ) (canceled : Bool) : List (Entry κ) → Option (CAsyncServiceHandler κ × Events κ)
  | kv :: rest => some ({ h with cleaning := h.cleaning.set i rest },
      { exits := [(kv, .givenUp canceled)], invoked := invoke kv (.givenUp canceled) })
  | [] => none

/-- What a step does; `none` when it is not enabled. -/
def act [DecidableEq κ] : Op κ → Option (CAsyncServiceHandler κ × Events κ)
  | .enter reqId rcb => if rcb.isGiven then some (h.enter reqId rcb, {}) else none
  | .send sent => h.sending.map fun c ↦ (h.send c sent, {})
  | .sendPlain reqId sent => some (h.sendPlain reqId sent, {})
  | .pop i => h.refused[i]?.map (h.pop i)
  | .startBatching => some (h.StartBatching, {})
  | .coreStartBatching ok => (h.called .StartBatching).map fun h ↦
      (if ok then { h with core := h.core.startBatch } else h, {})
  | .abortBatching => some h.AbortBatching
  | .coreAbortBatching ok => (h.called .AbortBatching).map fun h ↦ h.coreAbortBatching ok
  | .commitBatching => some (h.CommitBatching, {})
  | .coreCommitBatching r => (h.called .CommitBatching).map fun h ↦ h.coreCommitBatching r
  | .startJob ok => some (if ok then { h with core := h.core.startJob } else h, {})
  | .endJob ok => some (if ok then { h with core := h.core.endJob } else h, {})
  | .respond kind => h.core.wire.head?.map (h.respond kind)
  | .frame kind reqId => some (h.deliver kind reqId none)
  | .answer i => h.answering[i]?.map fun a ↦ h.answer i a.1 a.2
  | .clean => some (h.CleanCallbacks, {})
  | .discard i canceled => h.cleaning[i]?.bind (h.discard i canceled)

end CAsyncServiceHandler

/-! ### Several handlers -/

/-- The handlers, in the order they were constructed. -/
structure State (κ : Type) where
  handlers : List (CAsyncServiceHandler κ)
  /-- The number of entries appended so far. -/
  made : ℕ
  events : Events κ

/-- The steps of the threads and of the core's callbacks. -/
inductive Action (κ : Type)
  | newHandler
  /-- The `k`-th entering call appends its entry. -/
  | append (i k : ℕ)
  | on (i : ℕ) (op : Op κ)
  /-- The core has merged the client queue of the `i`-th handler's socket into that of the `j`-th
  one's, and `_AppendTo_` does the same with the callbacks. -/
  | appendTo (i j : ℕ)
deriving DecidableEq

namespace State

/-- `_AppendTo_(to)` under both locks. -/
def AppendTo (s : State κ) (i j : ℕ) (h other : CAsyncServiceHandler κ) : State κ :=
  let merged := { other with
    m_kvCallback := other.m_kvCallback ++ h.m_kvCallback
    core := other.core.takeOver h.core.wire }
  let emptied := { h with m_kvCallback := [], core := { h.core with wire := [] } }
  { s with handlers := (s.handlers.set j merged).set i emptied }

/-- One step; `none` when it is not enabled. -/
def step [DecidableEq κ] (s : State κ) : Action κ → Option (State κ)
  | .newHandler => some { s with handlers := s.handlers ++ [.new] }
  | .append i k =>
    s.handlers[i]?.bind fun h ↦ h.entering[k]?.bind fun call ↦
      if h.sending = none then
        some { s with handlers := s.handlers.set i (h.append k call s.made), made := s.made + 1 }
      else none
  | .on i op =>
    s.handlers[i]?.bind fun h ↦ (h.act op).map fun r ↦
      { s with handlers := s.handlers.set i r.1, events := s.events.append r.2 }
  | .appendTo i j =>
    match s.handlers[i]?, s.handlers[j]? with
    | some h, some other => if i = j then none else some (s.AppendTo i j h other)
    | _, _ => none

/-- Before the first handler. -/
def start : State κ := ⟨[], 0, {}⟩

end State

/-! ### What the handlers owe their callers -/

/-- The entries in a handler: in a deque, or in the hands of a call. -/
def CAsyncServiceHandler.held (h : CAsyncServiceHandler κ) : Multiset (Entry κ) :=
  (h.queued : Multiset (Entry κ)) +
    (h.answering : Multiset (Entry κ × AnswerKind)).map Prod.fst +
    Tenancy.sumOf (fun l : List (Entry κ) ↦ (l : Multiset (Entry κ))) h.cleaning

/-- The entries in the handlers. -/
def State.held (s : State κ) : Multiset (Entry κ) :=
  Tenancy.sumOf CAsyncServiceHandler.held s.handlers

/-- **One outcome for each request**, in the order of the requests on the wire. -/
structure State.OneOutcome [DecidableEq κ] (s : State κ) : Prop
    extends Handler.OneOutcome s.held s.made s.events where
  order : ∀ h ∈ s.handlers, Machine.InLine h.m_kvCallback (entries h.core.wire)

/-! ### The condition on the steps -/

namespace CAsyncServiceHandler

variable (h : CAsyncServiceHandler κ)

/-- No entry would be taken for an answer with this id. -/
def Passes (reqId : UInt16) : Prop := ∀ kv ∈ h.m_kvCallback.head?, kv.reqId ≠ reqId

/-- The answer to a request with an entry in a deque finds one in `_m_kvCallback_`, and that in
front is not of a refused call; an answer to another request has another id than that in front. -/
def Answers [DecidableEq κ] (r : Request κ) : Prop :=
  match r.entry.filter (· ∈ h.queued) with
  | some e => e ∈ h.m_kvCallback ∧ ∀ kv ∈ h.m_kvCallback.head?, kv ∉ h.refused.map Call.kv
  | none => h.Passes r.reqId

/-- The entries whose requests are not on the wire. -/
def unwritten : List (Entry κ) :=
  entries h.core.inJob ++ entries h.core.inBatch ++ h.sending.toList.map Call.kv

/-- The conditions on the steps of one handler.
* `pop`: the entry of the failed call is the last one of its deque.
* `startBatching`: `_m_kvBatching_` is empty.
* `coreAbortBatching`, `coreCommitBatching`: no request with an entry in a deque is dropped.
* `respond`, `frame`: no other entry is in front, or not with the id of the answer. -/
def Orderly [DecidableEq κ] : Op κ → Prop
  | .pop i => ∀ c ∈ h.refused[i]?, (h.queueOf c.batching).getLast? = some c.kv
  | .startBatching => h.m_kvBatching = []
  | .coreAbortBatching true => ∀ kv ∈ entries h.core.inBatch, kv ∉ h.queued
  | .coreCommitBatching r => ∀ kv ∈ r.lost h.core, kv ∉ h.queued
  | .respond _ => ∀ r ∈ h.core.wire.head?, h.Answers r
  | .frame kind reqId => kind = .result ∧ reqId = idInterrupt ∨ h.Passes reqId
  | _ => True

/-- A call that is not batching appends its entry when no entry of a request with the core is in
`_m_kvBatching_`. -/
def Appends (call : Entering κ) : Prop :=
  call.batching ∨ ∀ kv ∈ h.m_kvBatching, kv ∉ entries h.core.all

/-- A handler is merged into another one when no entry of a request on its wire is in
`_m_kvBatching_`; and when it has no callbacks, or all are of requests on its wire, and the other
one has those of requests on the wire, and no other ones, in `_m_kvCallback_`. -/
def Merges (other : CAsyncServiceHandler κ) : Prop :=
  (∀ kv ∈ h.m_kvBatching, kv ∉ entries h.core.wire) ∧
    (h.m_kvCallback = [] ∨ (∀ kv ∈ other.m_kvCallback, kv ∉ other.unwritten) ∧
      (∀ kv ∈ other.m_kvBatching, kv ∉ entries other.core.wire) ∧
      ∀ kv ∈ h.m_kvCallback, kv ∈ entries h.core.wire)

end CAsyncServiceHandler

/-- The conditions on the steps. -/
def State.Orderly [DecidableEq κ] (s : State κ) : Action κ → Prop
  | .append i k => ∀ h ∈ s.handlers[i]?, ∀ call ∈ h.entering[k]?, h.Appends call
  | .on i op => ∀ h ∈ s.handlers[i]?, h.Orderly op
  | .appendTo i j => ∀ h ∈ s.handlers[i]?, ∀ other ∈ s.handlers[j]?, h.Merges other
  | .newHandler => True

instance (h : CAsyncServiceHandler κ) (reqId : UInt16) : Decidable (h.Passes reqId) := by
  unfold CAsyncServiceHandler.Passes
  infer_instance

instance [DecidableEq κ] (h : CAsyncServiceHandler κ) (r : Request κ) : Decidable (h.Answers r) := by
  unfold CAsyncServiceHandler.Answers
  split <;> infer_instance

instance [DecidableEq κ] (h : CAsyncServiceHandler κ) (op : Op κ) : Decidable (h.Orderly op) := by
  unfold CAsyncServiceHandler.Orderly
  split <;> infer_instance

instance [DecidableEq κ] (h : CAsyncServiceHandler κ) (call : Entering κ) :
    Decidable (h.Appends call) := by
  unfold CAsyncServiceHandler.Appends
  infer_instance

instance [DecidableEq κ] (h other : CAsyncServiceHandler κ) : Decidable (h.Merges other) := by
  unfold CAsyncServiceHandler.Merges
  infer_instance

instance [DecidableEq κ] (s : State κ) (a : Action κ) : Decidable (s.Orderly a) := by
  cases a <;> unfold State.Orderly <;> infer_instance

end SocketPro.Python.AsyncHandler
