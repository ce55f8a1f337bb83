import SocketPro.Foundation.Run
import Mathlib.Tactic.SplitIfs

/-!
# The queue server

`CAsyncQueueImpl` and `CMyQueue` of `asyncqueueimpl.{h,cpp}`: any number of peers, each with its
three transaction fields, a shared map from keys to `CMyQueue` objects, and the core queues those
objects stand for.

**Granularity.** The requests of one peer are served one after the other, those of different peers
concurrently. A request is split where the code leaves a lock or calls the core: after `Find` has
returned null, before the enqueuing of a message outside a transaction, and between `StartJob`,
`BatchEnqueue` and `EndJob` or `AbortJob` of a commit. What the core returns is part of the action.

**The core queue.** Two `CMyQueue` objects for one key have the handle of one core queue, so core
queues are kept by key. What is enqueued while a job is open waits in the job; `EndJob` commits it
and `AbortJob` discards it, whoever enqueued it. A call that fails has no effect, except that a
failing `BatchEnqueue` may leave part of the batch in the open job. `stored` is what has ever been
committed to a queue; dequeuing is not modelled.

Messages carry two marks that no code reads: the key of the request that sent them, and the
transaction their client was in. The record of the transactions (`txs`) is the clients' view: a
transaction lasts from a successful `StartTrans` to the next `EndTrans`, cancel or disconnect.
-/

namespace SocketPro.Queue

/-- A queue key, a `std::string`. -/
abbrev Key := List Char

/-- `CAsyncQueueImpl::Pretreat` where file names are case-sensitive: one slash at the end goes. -/
def pretreat (key : Key) : Key := if key.getLast? = some '/' then key.dropLast else key

/-- A message as `Enqueue` gets it: the id and the bytes. -/
structure Msg where
  idMessage : UInt16
  buffer : List UInt8
deriving DecidableEq, Repr

/-- A message with the key its request named and the transaction its client was in. -/
structure Entry where
  msg : Msg
  key : Key
  tx : Option ℕ
deriving DecidableEq, Repr

/-! ### Core queues -/

/-- A queue of the core library, with the open job if there is one. -/
structure CoreQueue where
  stored : List Entry
  job : Option (List Entry)
deriving DecidableEq, Repr

namespace CoreQueue

/-- `Enqueue` and `BatchEnqueue`. -/
def enqueue (c : CoreQueue) (es : List Entry) : CoreQueue :=
  match c.job with
  | some pending => { c with job := some (pending ++ es) }
  | none => { c with stored := c.stored ++ es }

/-- `StartJob`. -/
def startJob (c : CoreQueue) : CoreQueue := { c with job := some (c.job.getD []) }

/-- `EndJob`. -/
def endJob (c : CoreQueue) : CoreQueue := ⟨c.stored ++ c.job.getD [], none⟩

/-- `AbortJob`. -/
def abortJob (c : CoreQueue) : CoreQueue := { c with job := none }

end CoreQueue

/-! ### Peers and queue objects -/

/-- The error codes of `uasyncqueue.h`. -/
inductive ErrCode
  | QUEUE_OK
  | QUEUE_TRANS_ALREADY_STARTED
  | QUEUE_TRANS_STARTING_FAILED
  | QUEUE_TRANS_NOT_STARTED_YET
  | QUEUE_TRANS_COMMITTING_FAILED
  | QUEUE_DEQUEUING
  | QUEUE_OTHER_WORKING_WITH_SAME_QUEUE
  | QUEUE_CLOSE_FAILED
  | QUEUE_ENQUEUING_FAILED
deriving DecidableEq, Repr

/-- What a request is answered with; the index `none` is `INVALID_NUMBER`. -/
inductive Reply
  | none
  | errCode (c : ErrCode)
  | index (n : Option ℕ)
deriving DecidableEq, Repr

/-- A `CMyQueue` object: the key it was made for and the peer that holds its `m_cs`. -/
structure CMyQueue (ι : Type) where
  key : Key
  m_cs : Option ι

/-- Where the running request of a peer stands; `q` is an object held in a local `shared_ptr`. -/
inductive Pc
  | idle
  /-- `Find` has returned null. -/
  | missing (key : Key) (es : List Entry)
  /-- Before `p->Enqueue`. -/
  | enqueuing (q : ℕ) (es : List Entry)
  /-- `StartJob` has succeeded. -/
  | job (q : ℕ)
  /-- `BatchEnqueue` has returned. -/
  | batched (q : ℕ) (ok : Bool)
deriving DecidableEq, Repr

/-- A peer: the fields of `CAsyncQueueImpl`, its running request, the last answer, and the
transaction its client is in. -/
structure Peer where
  m_count : ℕ
  m_bufferBatch : Option (List Entry)
  m_qTrans : Option ℕ
  pc : Pc
  reply : Reply
  trans : Option ℕ
deriving DecidableEq, Repr

/-- The lines that give up a transaction, in `EndTrans`, `Close`, cancel and disconnect. -/
def Peer.unlock (p : Peer) : Peer := { p with m_bufferBatch := none, m_count := 0, m_qTrans := none }

/-- Does the peer hold a reference to the object? -/
def Peer.refers (p : Peer) (q : ℕ) : Bool :=
  p.m_qTrans = some q ||
    match p.pc with
    | .enqueuing q' _ => q' = q
    | _ => false

/-- How a transaction ended, as its client sees it. -/
inductive Ending
  | running
  | committed
  | dropped
deriving DecidableEq, Repr

/-- A transaction: the peer, the queue, what has been sent and how it ended. -/
structure Tx (ι : Type) where
  peer : ι
  key : Key
  sent : List Entry
  ending : Ending

/-- The server. -/
structure State (ι : Type) where
  clients : List ι
  peers : ι → Peer
  heap : ℕ → CMyQueue ι
  fresh : ℕ
  m_mapKeyQueue : Key → Option ℕ
  core : Key → CoreQueue
  txs : ℕ → Tx ι
  nextTx : ℕ

namespace State

variable {ι : Type} [DecidableEq ι]

/-- Change one peer. -/
def setPeer (s : State ι) (i : ι) (p : Peer) : State ι :=
  { s with peers := Function.update s.peers i p }

/-- Change one core queue. -/
def setCore (s : State ι) (k : Key) (c : CoreQueue) : State ι :=
  { s with core := Function.update s.core k c }

/-- Take or leave the `m_cs` of an object. -/
def setLock (s : State ι) (q : ℕ) (owner : Option ι) : State ι :=
  { s with heap := Function.update s.heap q { s.heap q with m_cs := owner } }

/-- `new CMyQueue(key)`, registered under its key. -/
def register (s : State ι) (key : Key) : State ι :=
  { s with
    heap := Function.update s.heap s.fresh ⟨key, none⟩
    fresh := s.fresh + 1
    m_mapKeyQueue := Function.update s.m_mapKeyQueue key (some s.fresh) }

/-- Answer the request of a peer; the next one can come. -/
def answer (s : State ι) (i : ι) (r : Reply) : State ι :=
  s.setPeer i { s.peers i with pc := .idle, reply := r }

/-- Record that the client of peer `i` sends messages in its transaction. -/
def recordSent (s : State ι) (i : ι) (es : List Entry) : State ι :=
  match (s.peers i).trans with
  | some t =>
    { s with txs := Function.update s.txs t { s.txs t with sent := (s.txs t).sent ++ es } }
  | none => s

/-- Record that the transaction of the client of peer `i` is over. -/
def recordEnd (s : State ι) (i : ι) (e : Ending) : State ι :=
  match (s.peers i).trans with
  | some t => { s with
      txs := Function.update s.txs t { s.txs t with ending := e }
      peers := Function.update s.peers i { s.peers i with trans := none } }
  | none => s

/-! ### Requests -/

/-- `OnSwitchFrom`. -/
def onSwitchFrom (s : State ι) (i : ι) : State ι :=
  { s with
    clients := i :: s.clients
    peers := Function.update s.peers i ⟨0, none, none, .idle, .none, none⟩ }

/-- A transaction of peer `i` on a key begins on the object `q`. -/
def beginTrans (s : State ι) (i : ι) (key : Key) (q : ℕ) : State ι :=
  { s with
    peers := Function.update s.peers i
      ⟨0, some [], some q, (s.peers i).pc, .errCode .QUEUE_OK, some s.nextTx⟩
    txs := Function.update s.txs s.nextTx ⟨i, key, [], .running⟩
    nextTx := s.nextTx + 1 }

/-- `StartTrans`; `started` is whether the core could start a queue for a new object. -/
def startTrans (s : State ι) (i : ι) (key : Key) (started : Bool) : State ι :=
  if (s.peers i).m_bufferBatch.isSome || (s.peers i).m_qTrans.isSome then
    s.answer i (.errCode .QUEUE_TRANS_ALREADY_STARTED)
  else
    match s.m_mapKeyQueue (pretreat key) with
    | some q => s.beginTrans i (pretreat key) q
    | none =>
      bif started then (s.register (pretreat key)).beginTrans i (pretreat key) s.fresh
      else s.answer i (.errCode .QUEUE_TRANS_STARTING_FAILED)

/-- The end of `Enqueue` and `EnqueueBatch`, once `p` is not null: into the batch buffer, or on to
`p->Enqueue`. -/
def enqueueAt (s : State ι) (i : ι) (q : ℕ) (es : List Entry) : State ι :=
  match (s.peers i).m_bufferBatch with
  | some buffer =>
    let count := (s.peers i).m_count + es.length
    s.setPeer i { s.peers i with
      m_bufferBatch := some (buffer ++ es)
      m_count := count
      pc := .idle
      reply := .index (some count) }
  | none => s.setPeer i { s.peers i with pc := .enqueuing q es }

/-- `Enqueue`, with one message, and `EnqueueBatch`, with any number of them, up to the first lock
they leave. -/
def enqueue (s : State ι) (i : ι) (key : Key) (msgs : List Msg) : State ι :=
  let es := msgs.map fun m ↦ ⟨m, pretreat key, (s.peers i).trans⟩
  let s := s.recordSent i es
  match (s.peers i).m_qTrans with
  | some q => s.enqueueAt i q es
  | none =>
    match s.m_mapKeyQueue (pretreat key) with
    | some q => s.enqueueAt i q es
    | none => s.setPeer i { s.peers i with pc := .missing (pretreat key) es }

/-- The rest of `EndTrans` after a commit that returned `errCode`. -/
def endBatch (s : State ι) (i : ι) (errCode : ErrCode) : State ι :=
  let s := s.recordEnd i (if errCode = .QUEUE_OK then .committed else .dropped)
  s.setPeer i { (s.peers i).unlock with pc := .idle, reply := .errCode errCode }

/-- `EndTrans`, and of a commit the part up to its first core call: `Enqueue` of a single message,
without a lock, or `StartJob` under the lock of the object. `ok` is what that call returns. -/
def endTrans (s : State ι) (i : ι) (rollback ok : Bool) : Option (State ι) :=
  match (s.peers i).m_bufferBatch, (s.peers i).m_qTrans with
  | some buffer, some q =>
    if rollback then
      let s := s.recordEnd i .dropped
      some (s.setPeer i { (s.peers i).unlock with reply := .errCode .QUEUE_OK })
    else if (s.peers i).m_count = 0 then some (s.endBatch i .QUEUE_OK)
    else if (s.peers i).m_count = 1 then
      let k := (s.heap q).key
      bif ok then some ((s.setCore k ((s.core k).enqueue (buffer.take 1))).endBatch i .QUEUE_OK)
      else some (s.endBatch i .QUEUE_ENQUEUING_FAILED)
    else
      match (s.heap q).m_cs with
      | some _ => none
      | none =>
        let k := (s.heap q).key
        bif ok then
          let s := (s.setLock q (some i)).setCore k (s.core k).startJob
          some (s.setPeer i { s.peers i with pc := .job q })
        else some (s.endBatch i .QUEUE_TRANS_COMMITTING_FAILED)
  | _, _ => some ((s.recordEnd i .dropped).answer i (.errCode .QUEUE_TRANS_NOT_STARTED_YET))

/-- `BatchEnqueue` of a commit; a failing call leaves the first `n` messages in the job. -/
def batchEnqueue (s : State ι) (i : ι) (q : ℕ) (ok : Bool) (n : ℕ) : State ι :=
  let k := (s.heap q).key
  let buffer := (s.peers i).m_bufferBatch.getD []
  let s := s.setCore k ((s.core k).enqueue (bif ok then buffer else buffer.take n))
  s.setPeer i { s.peers i with pc := .batched q ok }

/-- `EndJob` after a batch that has been enqueued, `AbortJob` after one that has not. `ended` is
what `EndJob` returns; a job that cannot be ended is not committed. -/
def endJob (s : State ι) (i : ι) (q : ℕ) (batched ended : Bool) : State ι :=
  let k := (s.heap q).key
  let s := s.setLock q none
  bif batched then
    bif ended then (s.setCore k (s.core k).endJob).endBatch i .QUEUE_OK
    else (s.setCore k (s.core k).abortJob).endBatch i .QUEUE_TRANS_COMMITTING_FAILED
  else (s.setCore k (s.core k).abortJob).endBatch i .QUEUE_ENQUEUING_FAILED

/-- `use_count() == 1`: only the map refers to the object. -/
def unshared (s : State ι) (q : ℕ) : Bool := s.clients.all fun i ↦ !(s.peers i).refers q

/-- `Close`; `closed` is what `CMyQueue::Close` returns. Stopping a core queue ends its job. -/
def close (s : State ι) (i : ι) (key : Key) (closed : ErrCode) : State ι :=
  let s := s.setPeer i (s.peers i).unlock
  match s.m_mapKeyQueue (pretreat key) with
  | none => s.answer i (.errCode .QUEUE_OK)
  | some q =>
    bif s.unshared q then
      if closed = .QUEUE_OK then
        let k := (s.heap q).key
        let s := { s with m_mapKeyQueue := Function.update s.m_mapKeyQueue (pretreat key) none }
        (s.setCore k (s.core k).abortJob).answer i (.errCode .QUEUE_OK)
      else s.answer i (.errCode closed)
    else s.answer i (.errCode .QUEUE_OTHER_WORKING_WITH_SAME_QUEUE)

/-- `OnBaseRequestArrive(idCancel)`. -/
def onCancel (s : State ι) (i : ι) : State ι :=
  let s := s.recordEnd i .dropped
  s.setPeer i (s.peers i).unlock

/-- `OnReleaseSource`. The last client takes the map with it. -/
def onReleaseSource (s : State ι) (i : ι) : State ι :=
  let s := s.recordEnd i .dropped
  let s := s.setPeer i (s.peers i).unlock
  { s with
    clients := s.clients.erase i
    m_mapKeyQueue := if (s.clients.erase i).isEmpty then fun _ ↦ none else s.m_mapKeyQueue }

end State

/-! ### Runs -/

/-- What can happen at the server. -/
inductive Act (ι : Type)
  | switchFrom (i : ι)
  | startTrans (i : ι) (key : Key) (started : Bool)
  | enqueue (i : ι) (key : Key) (msgs : List Msg)
  /-- A new object for a key that `Find` has not found; `started` is whether it has a handle. -/
  | create (i : ι) (started : Bool)
  /-- `p->Enqueue`; `index` is what the core returns. -/
  | store (i : ι) (index : Option ℕ)
  | endTrans (i : ι) (rollback ok : Bool)
  | batchEnqueue (i : ι) (ok : Bool) (n : ℕ)
  | endJob (i : ι) (ended : Bool)
  | close (i : ι) (key : Key) (closed : ErrCode)
  | cancel (i : ι)
  | releaseSource (i : ι)
deriving DecidableEq, Repr

namespace State

variable {ι : Type} [DecidableEq ι]

/-- The peer is connected and its last request has been answered. -/
def Ready (s : State ι) (i : ι) : Prop := i ∈ s.clients ∧ (s.peers i).pc = .idle

instance (s : State ι) (i : ι) : Decidable (s.Ready i) :=
  inferInstanceAs (Decidable (_ ∧ _))

/-- One step; `none` when the action is not enabled. -/
def step (s : State ι) : Act ι → Option (State ι)
  | .switchFrom i => if i ∈ s.clients then none else some (s.onSwitchFrom i)
  | .startTrans i key started => if s.Ready i then some (s.startTrans i key started) else none
  | .enqueue i key msgs => if s.Ready i then some (s.enqueue i key msgs) else none
  | .create i started =>
    match (s.peers i).pc with
    | .missing key es =>
      bif started then some ((s.register key).enqueueAt i s.fresh es)
      else some (s.answer i (.index none))
    | _ => none
  | .store i index =>
    match (s.peers i).pc with
    | .enqueuing q es =>
      match (s.heap q).m_cs with
      | some _ => none
      | none =>
        let k := (s.heap q).key
        match index with
        | some n => some ((s.setCore k ((s.core k).enqueue es)).answer i (.index (some n)))
        | none => some (s.answer i (.index none))
    | _ => none
  | .endTrans i rollback ok => if s.Ready i then s.endTrans i rollback ok else none
  | .batchEnqueue i ok n =>
    match (s.peers i).pc with
    | .job q => some (s.batchEnqueue i q ok n)
    | _ => none
  | .endJob i ended =>
    match (s.peers i).pc with
    | .batched q ok => some (s.endJob i q ok ended)
    | _ => none
  | .close i key closed => if s.Ready i then some (s.close i key closed) else none
  | .cancel i => if s.Ready i then some (s.onCancel i) else none
  | .releaseSource i => if s.Ready i then some (s.onReleaseSource i) else none

/-- What a step can do, case by case, with what the invariants below need to know of the state
before it. -/
inductive Steps (s : State ι) : Act ι → State ι → Prop
  | switchFrom {i : ι} : Steps s (.switchFrom i) (s.onSwitchFrom i)
  | startTrans {i : ι} {key : Key} {started : Bool} (hpc : (s.peers i).pc = .idle) :
      Steps s (.startTrans i key started) (s.startTrans i key started)
  | enqueue {i : ι} {key : Key} {msgs : List Msg} :
      Steps s (.enqueue i key msgs) (s.enqueue i key msgs)
  | create {i : ι} {key : Key} {es : List Entry} (hpc : (s.peers i).pc = .missing key es) :
      Steps s (.create i true) ((s.register key).enqueueAt i s.fresh es)
  | store {i : ι} {q n : ℕ} {es : List Entry} (hpc : (s.peers i).pc = .enqueuing q es) :
      Steps s (.store i (some n)) ((s.setCore (s.heap q).key
        ((s.core (s.heap q).key).enqueue es)).answer i (.index (some n)))
  /-- No handle for a new object, or no room in a core queue. -/
  | noIndex {i : ι} {a : Act ι} (ha : a = .create i false ∨ a = .store i none) :
      Steps s a (s.answer i (.index none))
  | noTrans {i : ι} {rollback ok : Bool}
      (hnone : (s.peers i).m_bufferBatch = none ∨ (s.peers i).m_qTrans = none) :
      Steps s (.endTrans i rollback ok)
      ((s.recordEnd i .dropped).answer i (.errCode .QUEUE_TRANS_NOT_STARTED_YET))
  | rollback {i : ι} {ok : Bool} (hpc : (s.peers i).pc = .idle) : Steps s (.endTrans i true ok)
      ((s.recordEnd i .dropped).setPeer i { ((s.recordEnd i .dropped).peers i).unlock with
        reply := .errCode .QUEUE_OK })
  | commitNone {i : ι} {ok : Bool} {buffer : List Entry} {q : ℕ}
      (hb : (s.peers i).m_bufferBatch = some buffer) (hq : (s.peers i).m_qTrans = some q)
      (hcount : (s.peers i).m_count = 0) :
      Steps s (.endTrans i false ok) (s.endBatch i .QUEUE_OK)
  | commitFail {i : ι} {c : ErrCode} (hc : c ≠ .QUEUE_OK) :
      Steps s (.endTrans i false false) (s.endBatch i c)
  | commitOne {i : ι} {buffer : List Entry} {q : ℕ}
      (hb : (s.peers i).m_bufferBatch = some buffer) (hq : (s.peers i).m_qTrans = some q)
      (hcount : (s.peers i).m_count = 1) : Steps s (.endTrans i false true)
      ((s.setCore (s.heap q).key ((s.core (s.heap q).key).enqueue (buffer.take 1))).endBatch i
        .QUEUE_OK)
  | startJob {i : ι} {buffer : List Entry} {q : ℕ}
      (hb : (s.peers i).m_bufferBatch = some buffer) (hq : (s.peers i).m_qTrans = some q)
      (hcount : (s.peers i).m_count ≠ 0) (hcs : (s.heap q).m_cs = none) :
      Steps s (.endTrans i false true)
        (((s.setLock q (some i)).setCore (s.heap q).key (s.core (s.heap q).key).startJob).setPeer i
          { s.peers i with pc := .job q })
  | batchEnqueue {i : ι} {q n : ℕ} {ok : Bool} (hpc : (s.peers i).pc = .job q) :
      Steps s (.batchEnqueue i ok n) (s.batchEnqueue i q ok n)
  | endJob {i : ι} {q : ℕ} {ok ended : Bool} (hpc : (s.peers i).pc = .batched q ok) :
      Steps s (.endJob i ended) (s.endJob i q ok ended)
  | close {i : ι} {key : Key} {closed : ErrCode} (hpc : (s.peers i).pc = .idle) :
      Steps s (.close i key closed) (s.close i key closed)
  | cancel {i : ι} (hpc : (s.peers i).pc = .idle) : Steps s (.cancel i) (s.onCancel i)
  | releaseSource {i : ι} (hpc : (s.peers i).pc = .idle) :
      Steps s (.releaseSource i) (s.onReleaseSource i)

variable {s s' : State ι}

theorem steps_of_endTrans {i : ι} {rollback ok : Bool} (hpc : (s.peers i).pc = .idle)
    (hstep : s.endTrans i rollback ok = some s') : s.Steps (.endTrans i rollback ok) s' := by
  unfold State.endTrans at hstep
  split at hstep
  · next buffer q hb hq =>
    cases rollback with
    | true => exact Option.some.inj hstep ▸ .rollback hpc
    | false =>
      rw [if_neg Bool.false_ne_true] at hstep
      split_ifs at hstep with hzero hone
      · exact Option.some.inj hstep ▸ .commitNone hb hq hzero
      · cases ok with
        | false => exact Option.some.inj hstep ▸ .commitFail ErrCode.noConfusion
        | true => exact Option.some.inj hstep ▸ .commitOne hb hq hone
      · split at hstep
        · cases hstep
        · next hcs =>
          cases ok with
          | false => exact Option.some.inj hstep ▸ .commitFail ErrCode.noConfusion
          | true => exact Option.some.inj hstep ▸ .startJob hb hq hzero hcs
  · next hnot =>
    refine Option.some.inj hstep ▸ .noTrans ?_
    cases hb : (s.peers i).m_bufferBatch with
    | none => exact .inl rfl
    | some buffer =>
      cases hq : (s.peers i).m_qTrans with
      | none => exact .inr rfl
      | some q => exact absurd hq (hnot buffer q hb)

/-- **The step function does nothing else.** -/
theorem steps_of_step {a : Act ι} (hstep : s.step a = some s') : s.Steps a s' := by
  cases a with
  | switchFrom i =>
    simp only [State.step, Option.ite_none_left_eq_some, Option.some.injEq] at hstep
    exact hstep.2 ▸ .switchFrom
  | startTrans i key started =>
    simp only [State.step, Option.ite_none_right_eq_some, Option.some.injEq] at hstep
    exact hstep.2 ▸ .startTrans hstep.1.2
  | enqueue i key msgs =>
    simp only [State.step, Option.ite_none_right_eq_some, Option.some.injEq] at hstep
    exact hstep.2 ▸ .enqueue
  | create i started =>
    simp only [State.step] at hstep
    split at hstep
    · next key es hpc =>
      cases started with
      | false => exact Option.some.inj hstep ▸ .noIndex (.inl rfl)
      | true => exact Option.some.inj hstep ▸ .create hpc
    · cases hstep
  | store i index =>
    simp only [State.step] at hstep
    split at hstep
    · next q es hpc =>
      split at hstep
      · cases hstep
      · cases index with
        | none => exact Option.some.inj hstep ▸ .noIndex (.inr rfl)
        | some n => exact Option.some.inj hstep ▸ .store hpc
    · cases hstep
  | endTrans i rollback ok =>
    simp only [State.step, Option.ite_none_right_eq_some] at hstep
    exact steps_of_endTrans hstep.1.2 hstep.2
  | batchEnqueue i ok n =>
    simp only [State.step] at hstep
    split at hstep
    · next q hpc => exact Option.some.inj hstep ▸ .batchEnqueue hpc
    · cases hstep
  | endJob i ended =>
    simp only [State.step] at hstep
    split at hstep
    · next q ok hpc => exact Option.some.inj hstep ▸ .endJob hpc
    · cases hstep
  | close i key closed =>
    simp only [State.step, Option.ite_none_right_eq_some, Option.some.injEq] at hstep
    exact hstep.2 ▸ .close hstep.1.2
  | cancel i =>
    simp only [State.step, Option.ite_none_right_eq_some, Option.some.injEq] at hstep
    exact hstep.2 ▸ .cancel hstep.1.2
  | releaseSource i =>
    simp only [State.step, Option.ite_none_right_eq_some, Option.some.injEq] at hstep
    exact hstep.2 ▸ .releaseSource hstep.1.2

/-- Nobody is connected; `stored` is what earlier runs have left in the queues. -/
def initial [Inhabited ι] (stored : Key → List Msg) : State ι where
  clients := []
  peers := fun _ ↦ ⟨0, none, none, .idle, .none, none⟩
  heap := fun _ ↦ ⟨[], none⟩
  fresh := 0
  m_mapKeyQueue := fun _ ↦ none
  core := fun k ↦ ⟨(stored k).map fun m ↦ ⟨m, k, none⟩, none⟩
  txs := fun _ ↦ ⟨default, [], [], .dropped⟩
  nextTx := 0

end State

end SocketPro.Queue
