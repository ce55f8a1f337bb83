import SocketPro.Queue.AsyncQueue
import Mathlib.Data.Int.Notation

/-!
# The map of queue objects

`CAsyncQueueImpl` once more, at a finer granularity: **every section guarded by `m_cs` and every
call of the queue library is one step**. So a request on a key that is not in the map yet makes its
`CMyQueue` in one step (`Find`), opens it in another one, asks for its handle in a third, registers
it in a fourth, and only then works on it. `StartTrans` does all that in one section, and so does
`Close`. The lock that each object has of its own is left out; it only excludes some interleavings.

What the library returns is part of the action. The server carries a record that the code does not
have: each time a request works on an object, what is registered under its key at that moment, and
each time `Close` reports `QUEUE_OK`, which peers hold an open object of that key.
-/

namespace SocketPro.Queue.Registry

/-! ### Requests -/

/-- `INVALID_NUMBER`. -/
def INVALID_NUMBER : UInt64 := 0xFFFFFFFFFFFFFFFF

/-- `tagOptimistic::oMemoryCached`. -/
def oMemoryCached : ℤ := 0

/-- The calls of the queue library on an object. -/
inductive Call
  | Enqueue (msg : Msg)
  | BatchEnqueue (msgs : List Msg)
  | StartJob
  | EndJob
  | AbortJob
  | IsAvailable
  | Dequeue2 (timeout : ℕ)
  | GetMessageCount
  | GetMessagesInDequeuing
  | GetQueueSize
  | SetOptimistic (option : ℤ)
deriving DecidableEq, Repr

/-- What a request is answered with. -/
inductive Reply
  | none
  | errCode (c : ErrCode)
  | index (index : UInt64)
  | flushed (messageCount fileSize : UInt64)
  | dequeued (messageCount fileSize ret : UInt64)
deriving DecidableEq, Repr

/-- What a request does with its object. -/
inductive Work
  | Enqueue (msg : Msg)
  | EnqueueBatch (msgs : List Msg)
  | Dequeue (timeout : ℕ)
  | Flush (option : ℤ)
  /-- The commit of a batch in `EndTrans`. -/
  | commit (msgs : List Msg)
deriving DecidableEq, Repr

namespace Work

/-- `CMyQueue::Dequeue`, by what the library has returned so far. -/
def dequeueNext (timeout : ℕ) : List UInt64 → Call ⊕ Reply
  | [] => .inl .IsAvailable
  | [available] =>
    if available = 0 then .inr (.dequeued INVALID_NUMBER INVALID_NUMBER INVALID_NUMBER)
    else .inl (.Dequeue2 timeout)
  | [_, _] => .inl .GetMessageCount
  | [_, _, _] => .inl .GetMessagesInDequeuing
  | [_, _, _, _] => .inl .GetQueueSize
  | _ :: ret :: count :: dequeuing :: fileSize :: _ =>
    .inr (.dequeued (count - dequeuing) fileSize ret)

/-- `CMyQueue::Flush`. -/
def flushNext (option : ℤ) (rets : List UInt64) : Call ⊕ Reply :=
  let counts : List UInt64 → Call ⊕ Reply
    | [] => .inl .GetMessageCount
    | [_] => .inl .GetQueueSize
    | count :: fileSize :: _ => .inr (.flushed count fileSize)
  if option ≠ oMemoryCached then
    match rets with
    | [] => .inl (.SetOptimistic option)
    | [_] => .inl (.SetOptimistic oMemoryCached)
    | _ :: _ :: rets => counts rets
  else counts rets

/-- `CMyQueue::BatchEnqueue` of a commit. -/
def commitNext (msgs : List Msg) (rets : List UInt64) : Call ⊕ Reply :=
  match msgs with
  | [] => .inr (.errCode .QUEUE_OK)
  | [msg] =>
    match rets with
    | [] => .inl (.Enqueue msg)
    | index :: _ =>
      .inr (.errCode (if index = INVALID_NUMBER then .QUEUE_ENQUEUING_FAILED else .QUEUE_OK))
  | msgs =>
    match rets with
    | [] => .inl .StartJob
    | [started] =>
      if started = 0 then .inr (.errCode .QUEUE_TRANS_COMMITTING_FAILED)
      else .inl (.BatchEnqueue msgs)
    | [_, index] => if index = INVALID_NUMBER then .inl .AbortJob else .inl .EndJob
    | _ :: index :: ended :: _ =>
      if index = INVALID_NUMBER then .inr (.errCode .QUEUE_ENQUEUING_FAILED)
      else .inr (.errCode (if ended = 0 then .QUEUE_TRANS_COMMITTING_FAILED else .QUEUE_OK))

/-- The next call, or the answer. -/
def next : Work → List UInt64 → Call ⊕ Reply
  | .Enqueue msg, [] => .inl (.Enqueue msg)
  | .EnqueueBatch msgs, [] => .inl (.BatchEnqueue msgs)
  | .Enqueue _, index :: _ => .inr (.index index)
  | .EnqueueBatch _, index :: _ => .inr (.index index)
  | .Dequeue timeout, rets => dequeueNext timeout rets
  | .Flush option, rets => flushNext option rets
  | .commit msgs, rets => commitNext msgs rets

end Work

/-! ### The server -/

/-- A `CMyQueue` with a handle: its key, and whether `Close` has stopped it. -/
structure CMyQueue where
  key : Key
  closed : Bool
deriving DecidableEq, Repr

/-- Where the running request of a peer stands. The key is the one it named, after `Pretreat`; `q`
is the object its `shared_ptr` holds. -/
inductive Pc
  | idle
  /-- `Find` has returned null. -/
  | missing (key : Key) (work : Work)
  /-- `new CMyQueue(key)`. -/
  | made (key : Key) (q : ℕ) (work : Work)
  /-- `GetHandle` was not zero. -/
  | opened (key : Key) (q : ℕ) (work : Work)
  /-- At work on the object; the library has returned `rets`. -/
  | working (key : Key) (q : ℕ) (work : Work) (rets : List UInt64)
deriving DecidableEq, Repr

/-- The key whose object is opened and not registered yet. -/
def Pc.opening : Pc → Option Key
  | .made key _ _ => some key
  | .opened key _ _ => some key
  | _ => none

/-- The object that the running request holds. -/
def Pc.object : Pc → Option ℕ
  | .made _ q _ => some q
  | .opened _ q _ => some q
  | .working _ q _ _ => some q
  | _ => none

/-- The fields of `CAsyncQueueImpl`, the running request and the last answer. -/
structure Peer where
  m_count : ℕ
  m_bufferBatch : Option (List Msg)
  m_qTrans : Option ℕ
  pc : Pc
  reply : Reply
deriving DecidableEq, Repr

namespace Peer

def new : Peer := ⟨0, none, none, .idle, .none⟩

/-- The lines that give up a transaction. -/
def unlock (p : Peer) : Peer := { p with m_bufferBatch := none, m_count := 0, m_qTrans := none }

/-- The objects that the peer refers to. -/
def held (p : Peer) : List ℕ := p.m_qTrans.toList ++ p.pc.object.toList

end Peer

/-- An entry of the record. -/
inductive Event (ι : Type)
  /-- A request on `key` works on `q`, while `registered` is what the map has under `key`. -/
  | worked (i : ι) (key : Key) (q : ℕ) (registered : Option ℕ)
  /-- `Close` has reported `QUEUE_OK`, while `holders` hold an open object of `key`. -/
  | closed (i : ι) (key : Key) (holders : List ι)
deriving DecidableEq, Repr

structure Server (ι : Type) where
  clients : List ι
  peers : ι → Peer
  heap : ℕ → CMyQueue
  fresh : ℕ
  m_mapKeyQueue : Key → Option ℕ
  log : List (Event ι)

namespace Server

variable {ι : Type} [DecidableEq ι] (s : Server ι)

omit [DecidableEq ι] in
/-- Nobody is connected. -/
def initial : Server ι := ⟨[], fun _ ↦ .new, fun _ ↦ ⟨[], false⟩, 0, fun _ ↦ none, []⟩

def setPeer (i : ι) (p : Peer) : Server ι := { s with peers := Function.update s.peers i p }

def setPc (i : ι) (pc : Pc) : Server ι := s.setPeer i { s.peers i with pc := pc }

def answer (i : ι) (r : Reply) : Server ι :=
  s.setPeer i { s.peers i with pc := .idle, reply := r }

omit [DecidableEq ι] in
/-- `new CMyQueue(key)`, with a handle. -/
def make (key : Key) : Server ι :=
  { s with heap := Function.update s.heap s.fresh ⟨key, false⟩, fresh := s.fresh + 1 }

omit [DecidableEq ι] in
/-- `m_mapKeyQueue[key] = p;`. -/
def register (key : Key) (q : ℕ) : Server ι :=
  { s with m_mapKeyQueue := Function.update s.m_mapKeyQueue key (some q) }

omit [DecidableEq ι] in
/-- Record that a request on `key` works on `q`. -/
def worked (i : ι) (key : Key) (q : ℕ) : Server ι :=
  { s with log := s.log ++ [.worked i key q (s.m_mapKeyQueue key)] }

/-! ### Requests -/

/-- What follows once `p` is not null: into the batch buffer, or on to the object. -/
def proceed (i : ι) (key : Key) (q : ℕ) (work : Work) : Server ι :=
  let batch (msgs : List Msg) : Server ι :=
    match (s.peers i).m_bufferBatch with
    | some buffer =>
      let count := (s.peers i).m_count + msgs.length
      (s.worked i key q).setPeer i { s.peers i with
        m_bufferBatch := some (buffer ++ msgs)
        m_count := count
        pc := .idle
        reply := .index count.toUInt64 }
    | none => s.setPc i (.working key q work [])
  match work with
  | .Enqueue msg => batch [msg]
  | .EnqueueBatch msgs => batch msgs
  | .Dequeue timeout =>
    let timeout := if (s.peers i).m_qTrans = some q then 0 else timeout
    s.setPc i (.working key q (.Dequeue timeout) [])
  | work => s.setPc i (.working key q work [])

/-- `Find`, and the branch behind it. -/
def lookUp (i : ι) (key : Key) (work : Work) : Server ι :=
  match s.m_mapKeyQueue (pretreat key) with
  | some q => s.proceed i (pretreat key) q work
  | none => s.setPc i (.missing (pretreat key) work)

/-- `Enqueue` and `EnqueueBatch` begin with the object of the transaction. -/
def enqueue (i : ι) (key : Key) (work : Work) : Server ι :=
  match (s.peers i).m_qTrans with
  | some q => s.proceed i (pretreat key) q work
  | none => s.lookUp i key work

def Enqueue (i : ι) (key : Key) (msg : Msg) : Server ι := s.enqueue i key (.Enqueue msg)

def EnqueueBatch (i : ι) (key : Key) (msgs : List Msg) : Server ι :=
  s.enqueue i key (.EnqueueBatch msgs)

def Dequeue (i : ι) (key : Key) (timeout : ℕ) : Server ι := s.lookUp i key (.Dequeue timeout)

/-- `Flush` makes no object. -/
def Flush (i : ι) (key : Key) (option : ℤ) : Server ι :=
  match s.m_mapKeyQueue (pretreat key) with
  | some q => s.proceed i (pretreat key) q (.Flush option)
  | none => s.answer i (.flushed INVALID_NUMBER INVALID_NUMBER)

/-- A transaction of peer `i` begins on the object `q`. -/
def beginTrans (i : ι) (q : ℕ) : Server ι :=
  s.setPeer i ⟨0, some [], some q, .idle, .errCode .QUEUE_OK⟩

/-- The peer has no transaction open. -/
def Free (i : ι) : Prop := (s.peers i).m_bufferBatch = none ∧ (s.peers i).m_qTrans = none

instance (i : ι) : Decidable (s.Free i) := inferInstanceAs (Decidable (_ ∧ _))

/-- `StartTrans`; `started` is whether a new object gets a handle. -/
def StartTrans (i : ι) (key : Key) (started : Bool) : Server ι :=
  if s.Free i then
    match s.m_mapKeyQueue (pretreat key) with
    | some q => s.beginTrans i q
    | none =>
      if started then ((s.make (pretreat key)).register (pretreat key) s.fresh).beginTrans i s.fresh
      else s.answer i (.errCode .QUEUE_TRANS_STARTING_FAILED)
  else s.answer i (.errCode .QUEUE_TRANS_ALREADY_STARTED)

/-- `EndTrans`; a commit goes on with the calls of `CMyQueue::BatchEnqueue`. -/
def EndTrans (i : ι) (rollback : Bool) : Server ι :=
  match (s.peers i).m_bufferBatch, (s.peers i).m_qTrans with
  | some buffer, some q =>
    if rollback then s.setPeer i { (s.peers i).unlock with reply := .errCode .QUEUE_OK }
    else s.setPc i (.working (s.heap q).key q (.commit buffer) [])
  | _, _ => s.answer i (.errCode .QUEUE_TRANS_NOT_STARTED_YET)

omit [DecidableEq ι] in
/-- The peers that hold an open object of the key. -/
def holders (key : Key) : List ι :=
  s.clients.filter fun j ↦
    (s.peers j).held.any fun q ↦ !(s.heap q).closed && decide ((s.heap q).key = key)

omit [DecidableEq ι] in
/-- `use_count() == 1`: only the map refers to the object. -/
def unshared (q : ℕ) : Bool := s.clients.all fun j ↦ decide (q ∉ (s.peers j).held)

/-- `Close` reports `QUEUE_OK`. -/
def closeOk (i : ι) (key : Key) : Server ι :=
  let s := { s with log := s.log ++ [Event.closed i key (s.holders key)] }
  s.answer i (.errCode .QUEUE_OK)

/-- `Close`; `closed` is what `CMyQueue::Close` returns. -/
def Close (i : ι) (key : Key) (closed : ErrCode) : Server ι :=
  let s := s.setPeer i (s.peers i).unlock
  match s.m_mapKeyQueue (pretreat key) with
  | none => s.closeOk i (pretreat key)
  | some q =>
    if s.unshared q then
      if closed = .QUEUE_OK then
        let s := { s with
          heap := Function.update s.heap q { s.heap q with closed := true }
          m_mapKeyQueue := Function.update s.m_mapKeyQueue (pretreat key) none }
        s.closeOk i (pretreat key)
      else s.answer i (.errCode closed)
    else s.answer i (.errCode .QUEUE_OTHER_WORKING_WITH_SAME_QUEUE)

/-- `OnReleaseSource`. The last client takes the map with it. -/
def OnReleaseSource (i : ι) : Server ι :=
  let s := s.setPeer i (s.peers i).unlock
  { s with
    clients := s.clients.erase i
    m_mapKeyQueue := if (s.clients.erase i).isEmpty then fun _ ↦ none else s.m_mapKeyQueue }

/-- The library call of the running request, and its answer behind the last one. -/
def call (i : ι) (key : Key) (q : ℕ) (work : Work) (rets : List UInt64) (ret : UInt64) : Server ι :=
  match work.next rets with
  | .inl _ => (s.worked i key q).setPc i (.working key q work (rets ++ [ret]))
  | .inr reply =>
    match work with
    | .commit _ => s.setPeer i { (s.peers i).unlock with pc := .idle, reply := reply }
    | _ => s.answer i reply

end Server

/-! ### Runs -/

/-- What can happen at the server. -/
inductive Action (ι : Type)
  | switchFrom (i : ι)
  | StartTrans (i : ι) (key : Key) (started : Bool)
  | Enqueue (i : ι) (key : Key) (msg : Msg)
  | EnqueueBatch (i : ι) (key : Key) (msgs : List Msg)
  | Dequeue (i : ι) (key : Key) (timeout : ℕ)
  | Flush (i : ι) (key : Key) (option : ℤ)
  | EndTrans (i : ι) (rollback : Bool)
  | Close (i : ι) (key : Key) (closed : ErrCode)
  /-- `new CMyQueue(key)`; `started` is whether the library starts the queue. Without that
  `GetHandle` gives 0. -/
  | make (i : ι) (started : Bool)
  /-- `GetHandle`; `available` is what `IsAvailable` returns. -/
  | getHandle (i : ι) (available : Bool)
  /-- The section that registers the object. -/
  | register (i : ι)
  /-- The next library call on the object; `ret` is what it returns. -/
  | call (i : ι) (ret : UInt64)
  | cancel (i : ι)
  | releaseSource (i : ι)
deriving DecidableEq, Repr

/-- The answer when a new object has no handle. -/
def Work.noHandle : Work → Reply
  | .Dequeue _ => .dequeued INVALID_NUMBER INVALID_NUMBER INVALID_NUMBER
  | _ => .index INVALID_NUMBER

namespace Server

variable {ι : Type} [DecidableEq ι] (s : Server ι)

/-- The peer is connected and its last request has been answered. -/
def Ready (i : ι) : Prop := i ∈ s.clients ∧ (s.peers i).pc = .idle

instance (i : ι) : Decidable (s.Ready i) := inferInstanceAs (Decidable (_ ∧ _))

/-- A step that a peer takes only between two requests. -/
def whenReady (i : ι) (t : Server ι) : Option (Server ι) :=
  if s.Ready i then some t else none

/-- One step; `none` when the action is not enabled. -/
def step (s : Server ι) : Action ι → Option (Server ι)
  | .switchFrom i =>
    if i ∈ s.clients then none else some { s.setPeer i .new with clients := i :: s.clients }
  | .StartTrans i key started => s.whenReady i (s.StartTrans i key started)
  | .Enqueue i key msg => s.whenReady i (s.Enqueue i key msg)
  | .EnqueueBatch i key msgs => s.whenReady i (s.EnqueueBatch i key msgs)
  | .Dequeue i key timeout => s.whenReady i (s.Dequeue i key timeout)
  | .Flush i key option => s.whenReady i (s.Flush i key option)
  | .EndTrans i rollback => s.whenReady i (s.EndTrans i rollback)
  | .Close i key closed => s.whenReady i (s.Close i key closed)
  | .make i started =>
    match (s.peers i).pc with
    | .missing key work =>
      if started then some ((s.make key).setPc i (.made key s.fresh work))
      else some (s.answer i work.noHandle)
    | _ => none
  | .getHandle i available =>
    match (s.peers i).pc with
    | .made key q work =>
      if available then some (s.setPc i (.opened key q work))
      else some (s.answer i work.noHandle)
    | _ => none
  | .register i =>
    match (s.peers i).pc with
    | .opened key q work => some ((s.register key q).proceed i key q work)
    | _ => none
  | .call i ret =>
    match (s.peers i).pc with
    | .working key q work rets => some (s.call i key q work rets ret)
    | _ => none
  | .cancel i => s.whenReady i (s.setPeer i (s.peers i).unlock)
  | .releaseSource i => s.whenReady i (s.OnReleaseSource i)

/-! ### The property -/

omit [DecidableEq ι] in
/-- The object exists: the map or a peer refers to it. -/
def Exists (q : ℕ) : Prop :=
  (∃ key, s.m_mapKeyQueue key = some q) ∨ ∃ i ∈ s.clients, q ∈ (s.peers i).held

end Server

/-- An entry of the record is as it should be: a request works on the object registered under its
key, and nobody holds an open object of a key that `Close` reports as closed. -/
def Event.Sound {ι : Type} : Event ι → Prop
  | .worked _ _ q registered => registered = some q
  | .closed _ _ holders => holders = []

end SocketPro.Queue.Registry
