import SocketPro.Foundation.Custody
import SocketPro.Foundation.Run

/-!
# The callback queues of the C# `CAsyncServiceHandler`

Several handlers, shared by threads and by the callbacks of the core library. `SendRequest` reads
`IsBatching`, takes `m_csSend`, adds its entry under `m_cs` and calls the core; after a refusal it
clears the queue it added to, with `m_csSend` released. `GetAsyncResultHandler`, `CommitBatching`,
`AbortBatching`, `EraseBack` and `AppendTo` change the queues under `m_cs`; `CleanCallbacks` takes
them under `m_cs` and calls the delegates afterwards.

Each call is cut where it takes or leaves a lock and at the calls of the core. What the core answers
is left to it: `IsBatching` and `SendRequest` return what they like, and an answer for any request
can arrive at any time. Threads have no identity in the code, so a handler lists the calls in
progress by the point they have reached.

`OneOutcome` is what the handlers owe their callers. `Orderly` is the condition on the steps under
which they do; that this is enough is proved in the next module.
-/

namespace SocketPro.CSharp.AsyncHandler

variable {κ : Type}

/-- `tagBaseRequestID.idReservedTwo`. -/
def idReservedTwo : UInt16 := 0x2001

/-- `tagBaseRequestID.idInterrupt`. -/
def idInterrupt : UInt16 := 29

/-! ### Entries -/

/-- `CResultCb`, with the delegates that were given. -/
structure CResultCb (κ : Type) where
  AsyncResultHandler : Option κ
  Discarded : Option κ
  ExceptionFromServer : Option κ
deriving DecidableEq

/-- Whether `SendRequest` makes an entry. -/
def CResultCb.isGiven (rcb : CResultCb κ) : Bool :=
  rcb.AsyncResultHandler.isSome || rcb.Discarded.isSome || rcb.ExceptionFromServer.isSome

/-- A `MyKeyValue` object. The number of the call that made it tells it from others. -/
structure MyKeyValue (κ : Type) where
  Key : UInt16
  Value : CResultCb κ
  ticket : ℕ
deriving DecidableEq

/-- The two ways a request is answered. -/
inductive AnswerKind
  | result
  | exception
deriving DecidableEq

/-- Why an entry has left the queues. -/
inductive Reason
  | answered (kind : AnswerKind)
  | givenUp (canceled : Bool)
deriving DecidableEq

/-- The call of a delegate. -/
inductive Notice (κ : Type)
  | AsyncResultHandler (f : κ)
  | ExceptionFromServer (f : κ)
  | Discarded (f : κ) (canceled : Bool)
deriving DecidableEq

/-- The delegate that has to be invoked, if it was given. -/
def MyKeyValue.due (kv : MyKeyValue κ) : Reason → Option (Notice κ)
  | .answered .result => kv.Value.AsyncResultHandler.map .AsyncResultHandler
  | .answered .exception => kv.Value.ExceptionFromServer.map .ExceptionFromServer
  | .givenUp canceled => kv.Value.Discarded.map (.Discarded · canceled)

/-- The invocation of the delegate for a reason. -/
def invoke (kv : MyKeyValue κ) (reason : Reason) : List (ℕ × Notice κ) :=
  Custody.noticesOf MyKeyValue.ticket MyKeyValue.due (kv, reason)

/-- A call of `SendRequest` with delegates: its entry, and what `IsBatching` returned to it. -/
structure Call (κ : Type) where
  kv : MyKeyValue κ
  batching : Bool
deriving DecidableEq

/-- What has happened outside the queues. -/
structure Events (κ : Type) where
  /-- The entries that went out, and why. -/
  exits : List (MyKeyValue κ × Reason) := []
  /-- The calls of `SendRequest` that returned false, with the entries they removed. -/
  failed : List (Call κ × List (MyKeyValue κ)) := []
  /-- The delegates invoked, in order, with the entries they belong to. -/
  invoked : List (ℕ × Notice κ) := []

/-- One after the other. -/
def Events.append (e f : Events κ) : Events κ where
  exits := e.exits ++ f.exits
  failed := e.failed ++ f.failed
  invoked := e.invoked ++ f.invoked

/-- `RemoveRange(offset, count)`: what is removed and what remains; `none` when it throws. -/
def removeRange {α : Type} (l : List α) (offset count : ℤ) : Option (List α × List α) :=
  if offset < 0 ∨ count < 0 ∨ l.length - offset < count then none
  else some ((l.drop offset.toNat).take count.toNat,
    l.take offset.toNat ++ l.drop (offset.toNat + count.toNat))

/-! ### One handler -/

/-- A handler, and the calls in progress on it. -/
structure CAsyncServiceHandler (κ : Type) where
  m_kvCallback : List (MyKeyValue κ)
  m_kvBatching : List (MyKeyValue κ)
  m_bRandom : Bool
  /-- `SendRequest` behind `IsBatching`, `m_csSend` not yet taken. -/
  reading : List (Call κ)
  /-- The holder of `m_csSend`: its entry is added, the core not yet called. -/
  sending : Option (Call κ)
  /-- The core refused the request, the queue is not yet cleared. -/
  refused : List (Call κ)
  /-- The answers of entries that were removed, before their delegates. -/
  answering : List (MyKeyValue κ × AnswerKind)
  /-- What the loops of the calls of `CleanCallbacks` have still to visit. -/
  cleanings : List (List (MyKeyValue κ))

/-- The steps on one handler. -/
inductive Op
  /-- The `i`-th reading call takes `m_csSend` and adds its entry under `m_cs`. -/
  | add (i : ℕ)
  /-- The core's `SendRequest` returns to the holder of `m_csSend`. -/
  | send (sent : Bool)
  /-- The `i`-th refused call clears the queue. -/
  | clear (i : ℕ)
  /-- `CommitBatching` up to its core call. -/
  | commitBatching
  /-- `AbortBatching` up to its core call. -/
  | abortBatching
  /-- `onRR` or `OnSE` up to and with `GetAsyncResultHandler`. -/
  | deliver (kind : AnswerKind) (reqId : UInt16)
  /-- The delegate of the `i`-th answer. -/
  | answer (i : ℕ)
  /-- `CleanCallbacks` up to its loops. -/
  | clean
  /-- The next round in the `i`-th call of `CleanCallbacks`, or its end. -/
  | cleanNext (i : ℕ) (canceled : Bool)
  /-- `EraseBack`, under the `m_cs` of its caller. -/
  | eraseBack (count : ℤ)
  /-- `OnBRProcessed` passes on whether the server answers out of order. -/
  | setRandom (random : Bool)
deriving DecidableEq

namespace CAsyncServiceHandler

variable (h : CAsyncServiceHandler κ)

/-- The constructor. -/
def new : CAsyncServiceHandler κ where
  m_kvCallback := []
  m_kvBatching := []
  m_bRandom := false
  reading := []
  sending := none
  refused := []
  answering := []
  cleanings := []

/-- The queue that a call adds to and clears. -/
def queueOf (batching : Bool) : List (MyKeyValue κ) :=
  if batching then h.m_kvBatching else h.m_kvCallback

def setQueue (batching : Bool) (q : List (MyKeyValue κ)) : CAsyncServiceHandler κ :=
  if batching then { h with m_kvBatching := q } else { h with m_kvCallback := q }

/-- `SendRequest` under both locks. -/
def add (i : ℕ) (c : Call κ) : CAsyncServiceHandler κ :=
  { h.setQueue c.batching (h.queueOf c.batching ++ [c.kv]) with
    reading := h.reading.eraseIdx i
    sending := some c }

/-- The core's `SendRequest`. -/
def send (c : Call κ) (sent : Bool) : CAsyncServiceHandler κ :=
  if sent then { h with sending := none }
  else { h with sending := none, refused := h.refused ++ [c] }

/-- The end of a failed `SendRequest`: `Clear` removes whatever is in the queue. -/
def clear (i : ℕ) (c : Call κ) : CAsyncServiceHandler κ × Events κ :=
  ({ h.setQueue c.batching [] with refused := h.refused.eraseIdx i },
    { failed := [(c, h.queueOf c.batching)] })

/-- `CommitBatching` under `m_cs`. -/
def CommitBatching : CAsyncServiceHandler κ :=
  { h with m_kvCallback := h.m_kvCallback ++ h.m_kvBatching, m_kvBatching := [] }

/-- `AbortBatching` under `m_cs`. -/
def AbortBatching : CAsyncServiceHandler κ × Events κ :=
  ({ h with m_kvBatching := [] },
    { exits := h.m_kvBatching.map fun p ↦ (p, .givenUp true)
      invoked := h.m_kvBatching.flatMap fun p ↦ invoke p (.givenUp true) })

/-- `GetAsyncResultHandler(reqId)`. -/
def GetAsyncResultHandler (reqId : UInt16) : Option (MyKeyValue κ) × CAsyncServiceHandler κ :=
  if h.m_bRandom then
    match h.m_kvCallback.find? (·.Key = reqId) with
    -- `Remove` looks for the object that was found
    | some kv => (some kv, { h with m_kvCallback := h.m_kvCallback.eraseP (·.Key = reqId) })
    | none => (none, h)
  else
    match h.m_kvCallback with
    | kv :: rest => if kv.Key = reqId then (some kv, { h with m_kvCallback := rest }) else (none, h)
    | [] => (none, h)

/-- `onRR` and `OnSE` up to the delegate. -/
def deliver (kind : AnswerKind) (reqId : UInt16) : CAsyncServiceHandler κ :=
  if kind = .result ∧ reqId = idInterrupt then h
  else
    match h.GetAsyncResultHandler reqId with
    | (some kv, h) => { h with answering := h.answering ++ [(kv, kind)] }
    | (none, h) => h

/-- `p.Value.AsyncResultHandler.Invoke(m_ar)` of `onRR`, `rcb.ExceptionFromServer.Invoke(...)` of
`OnSE`. -/
def answer (i : ℕ) (kv : MyKeyValue κ) (kind : AnswerKind) :
    CAsyncServiceHandler κ × Events κ :=
  ({ h with answering := h.answering.eraseIdx i },
    { exits := [(kv, .answered kind)], invoked := invoke kv (.answered kind) })

/-- `CleanCallbacks` under `m_cs`. -/
def clean : CAsyncServiceHandler κ :=
  { h with
    m_kvCallback := []
    m_kvBatching := []
    cleanings := h.cleanings ++ [h.m_kvBatching ++ h.m_kvCallback] }

/-- The loops of `CleanCallbacks`. -/
def cleanNext (i : ℕ) (canceled : Bool) : List (MyKeyValue κ) → CAsyncServiceHandler κ × Events κ
  | p :: rest =>
    ({ h with cleanings := h.cleanings.set i rest },
      { exits := [(p, .givenUp canceled)], invoked := invoke p (.givenUp canceled) })
  | [] => ({ h with cleanings := h.cleanings.eraseIdx i }, {})

/-- `EraseBack(count)`. -/
def EraseBack (count : ℤ) : CAsyncServiceHandler κ × Events κ :=
  let total : ℤ := h.m_kvCallback.length
  let count := if total < count then total else count
  let start := total - count
  let erased := h.m_kvCallback.drop start.toNat
  -- the loop counts `start` up to `total`
  let start := max start total
  let invoked := erased.flatMap fun p ↦ invoke p (.givenUp true)
  match removeRange h.m_kvCallback start count with
  | some (removed, q) => ({ h with m_kvCallback := q },
      { exits := removed.map fun p ↦ (p, .givenUp true), invoked := invoked })
  | none => (h, { invoked := invoked })

/-- What a step does; `none` when it is not enabled. -/
def act : Op → Option (CAsyncServiceHandler κ × Events κ)
  | .add i =>
    match h.sending, h.reading[i]? with
    | none, some c => some (h.add i c, {})
    | _, _ => none
  | .send sent => h.sending.map fun c ↦ (h.send c sent, {})
  | .clear i => h.refused[i]?.map (h.clear i)
  | .commitBatching => some (h.CommitBatching, {})
  | .abortBatching => some h.AbortBatching
  | .deliver kind reqId => some (h.deliver kind reqId, {})
  | .answer i => h.answering[i]?.map fun a ↦ h.answer i a.1 a.2
  | .clean => some (h.clean, {})
  | .cleanNext i canceled => h.cleanings[i]?.map (h.cleanNext i canceled)
  | .eraseBack count => some (h.EraseBack count)
  | .setRandom random => some ({ h with m_bRandom := random }, {})

end CAsyncServiceHandler

/-! ### Several handlers -/

/-- The handlers, in the order they were constructed. -/
structure State (κ : Type) where
  handlers : List (CAsyncServiceHandler κ)
  /-- The number of entries made so far. -/
  made : ℕ
  events : Events κ

/-- The steps of the threads and of the core's callbacks. -/
inductive Action (κ : Type)
  | newHandler
  /-- `SendRequest` up to and with `IsBatching`, or, without delegates, as a whole. -/
  | enter (i : ℕ) (reqId : UInt16) (rcb : CResultCb κ) (batching : Bool)
  | on (i : ℕ) (op : Op)
  /-- `AppendTo` of the `i`-th handler to the `j`-th one. -/
  | appendTo (i j : ℕ)
deriving DecidableEq

namespace State

variable (s : State κ)

/-- `SendRequest` up to the lock. Without delegates there is nothing to be done but the core's call;
an id of the framework makes it throw. -/
def enter (i : ℕ) (h : CAsyncServiceHandler κ) (reqId : UInt16) (rcb : CResultCb κ)
    (batching : Bool) : State κ :=
  if reqId ≤ idReservedTwo then s
  else if rcb.isGiven then
    { s with
      handlers := s.handlers.set i { h with
        reading := h.reading ++ [⟨⟨reqId, rcb, s.made⟩, batching⟩] }
      made := s.made + 1 }
  else s

/-- `AppendTo(to)` under both locks. -/
def AppendTo (i j : ℕ) (h other : CAsyncServiceHandler κ) : State κ :=
  let handlers := s.handlers.set j
    { other with m_kvCallback := other.m_kvCallback ++ h.m_kvCallback }
  { s with handlers := handlers.modify i fun h ↦ { h with m_kvCallback := [] } }

/-- One step; `none` when it is not enabled. -/
def step : Action κ → Option (State κ)
  | .newHandler => some { s with handlers := s.handlers ++ [.new] }
  | .enter i reqId rcb batching =>
    s.handlers[i]?.map fun h ↦ s.enter i h reqId rcb batching
  | .on i op =>
    s.handlers[i]?.bind fun h ↦ (h.act op).map fun r ↦
      { s with handlers := s.handlers.set i r.1, events := s.events.append r.2 }
  | .appendTo i j =>
    match s.handlers[i]?, s.handlers[j]? with
    | some h, some other => some (s.AppendTo i j h other)
    | _, _ => none

/-- Before the first handler. -/
def start : State κ := ⟨[], 0, {}⟩

end State

/-! ### What the handlers owe their callers -/

/-- The entries in a handler: not yet added, in a queue, or in the hands of a call. -/
def CAsyncServiceHandler.held (h : CAsyncServiceHandler κ) : Multiset (MyKeyValue κ) :=
  (h.reading : Multiset (Call κ)).map Call.kv + (h.m_kvCallback : Multiset (MyKeyValue κ)) +
    (h.m_kvBatching : Multiset (MyKeyValue κ)) +
    (h.answering : Multiset (MyKeyValue κ × AnswerKind)).map Prod.fst +
    (h.cleanings : Multiset (List (MyKeyValue κ))).bind fun l ↦ (l : Multiset (MyKeyValue κ))

/-- The entries in the handlers. -/
def State.held (s : State κ) : Multiset (MyKeyValue κ) :=
  ((s.handlers : Multiset (CAsyncServiceHandler κ)).map CAsyncServiceHandler.held).sum

/-- The entries that failed calls have removed. -/
def Events.withdrawn (e : Events κ) : Multiset (MyKeyValue κ) :=
  (e.failed : Multiset (Call κ × List (MyKeyValue κ))).bind fun p ↦ (p.2 : Multiset (MyKeyValue κ))

/-- **One outcome for each request.** -/
structure State.OneOutcome (s : State κ) : Prop where
  /-- A call that returned false has removed its own entry and no other. -/
  ownEntry : ∀ p ∈ s.events.failed, p.2 = [p.1.kv]
  /-- Every entry is in a handler, removed by a failed call or gone out, once. -/
  once : ∀ r, (s.held.map MyKeyValue.ticket).count r +
    ((s.events.withdrawn.map MyKeyValue.ticket).count r +
      ((s.events.exits : Multiset (MyKeyValue κ × Reason)).map fun x ↦ x.1.ticket).count r) =
    if r < s.made then 1 else 0
  /-- Of an entry that has gone out the delegate that is due was invoked, once and no other. -/
  called : ∀ x ∈ s.events.exits,
    Custody.given x.1.ticket s.events.invoked = (x.1.due x.2).toList
  /-- Of no other entry a delegate was invoked. -/
  silent : ∀ kv ∈ s.held + s.events.withdrawn, Custody.given kv.ticket s.events.invoked = []

/-- The conditions on the steps of one handler.
* `clear`: the entry of the failed call is the only one in its queue.
* `eraseBack`: there is nothing to erase. -/
def CAsyncServiceHandler.Orderly (h : CAsyncServiceHandler κ) : Op → Prop
  | .clear i => ∀ c ∈ h.refused[i]?, h.queueOf c.batching = [c.kv]
  | .eraseBack count => count ≤ 0 ∨ h.m_kvCallback = []
  | _ => True

/-- The conditions on the steps; a handler is not appended to itself with entries in its queue. -/
def State.Orderly (s : State κ) : Action κ → Prop
  | .on i op => ∀ h ∈ s.handlers[i]?, h.Orderly op
  | .appendTo i j => i = j → ∀ h ∈ s.handlers[i]?, h.m_kvCallback = []
  | _ => True

instance [DecidableEq κ] (h : CAsyncServiceHandler κ) (op : Op) : Decidable (h.Orderly op) := by
  cases op <;> unfold CAsyncServiceHandler.Orderly <;> infer_instance

instance [DecidableEq κ] (s : State κ) (a : Action κ) : Decidable (s.Orderly a) := by
  cases a <;> unfold State.Orderly <;> infer_instance

end SocketPro.CSharp.AsyncHandler
