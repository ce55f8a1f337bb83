import SocketPro.Foundation.Effect
import SocketPro.Foundation.Run

/-!
# The web socket client

An open connection of `SPA.ClientSide.connect` in `uwebsocket_debug.js`: `sendRequest` with its
batches, `cancel`, `onmessage` and the ping of the timer. What closes a connection is left out. The
arguments of a request are any values that JSON can express; the version and the session id, which
are the same in all requests, are not written here.

A request is numbered by `callIndex`, which the connections of a page share. Its callback is named
by that number, too. The last thing `onmessage` does is to run a callback; what the callback does
with the connection comes as further steps.

The page and the server are a `World`: the page calls the methods in any order, and the server
answers each written request at most once, in any order, the requests of a batch one by one and the
batch itself not at all.
-/

namespace SocketPro.WebSocket

open Machine

abbrev udoBatch : String := "udoBatch"

abbrev up : String := "uping"

/-- The pattern `^([a-zA-Z_][\w]*)$`. -/
def regxMethodName (methodName : String) : Bool :=
  match methodName.toList with
  | [] => false
  | c :: cs => (c.isAlpha || c = '_') && cs.all fun c ↦ c.isAlphanum || c = '_'

/-! ### Connections -/

/-- A request of the page. -/
structure Request (α : Type) where
  n : String
  i : ℕ
  a : List α
deriving DecidableEq, Repr

/-- What is written: a request, or a batch with the arguments of `udoBatch`. -/
inductive Packet (α : Type)
  | single (req : Request α)
  | batch (i : ℕ) (serverBatching : Bool) (rb : List (Request α))
deriving DecidableEq, Repr

/-- An entry of `onResult`, with a callback or without one. -/
structure Result where
  m : String
  i : ℕ
  cb : Bool
deriving DecidableEq, Repr

/-- The variables of a connection, and what `ws.send` has been called with. -/
structure Connection (α : Type) where
  callIndex : ℕ
  cIndex : ℕ
  b : Bool
  rb : List (Request α)
  onResult : List Result
  queuedRequests : List (Packet α)
  sent : List (Packet α)
deriving DecidableEq, Repr

inductive Exception
  | exRequestName
  | batchingRequests
deriving DecidableEq, Repr

def Exception.message : Exception → String
  | exRequestName => "Valid request name required"
  | batchingRequests => "Bad operation -- batching requests"

variable {α : Type}

/-- A method of a connection. -/
abbrev Method (α β : Type) := Effect Exception (Connection α) β

namespace Connection

/-- `++callIndex` -/
def count (s : Connection α) : Connection α :=
  { s with callIndex := s.callIndex + 1, cIndex := s.callIndex + 1 }

/-- The end of `sendRequest`: the request is sent or queued. -/
def transmit (p : Packet α) (s : Connection α) : Connection α :=
  if s.onResult.length - s.rb.length < 10 then { s with sent := s.sent ++ [p] }
  else { s with queuedRequests := s.queuedRequests ++ [p] }

/-- The front of `queuedRequests` is sent. -/
def dequeue (s : Connection α) : Connection α :=
  match s.queuedRequests with
  | [] => s
  | req :: queuedRequests => { s with queuedRequests, sent := s.sent ++ [req] }

end Connection

/-- `sendRequest(methodName, a .., cb)`, where the name may be missing or no text. -/
def sendRequest (methodName : Option String) (a : List α) (cb : Bool) : Method α ℕ := fun s ↦
  let s := s.count
  match methodName with
  | none => .throw .exRequestName s
  | some n =>
    if regxMethodName n = true then
      let req : Request α := ⟨n, s.cIndex, a⟩
      let s := if n = udoBatch then s
        else { s with onResult := s.onResult ++ [⟨n, s.cIndex, cb⟩] }
      if s.b = true ∧ n ≠ up then .ok s.cIndex { s with rb := s.rb ++ [req] }
      else .ok s.cIndex (s.transmit (.single req))
    else .throw .exRequestName s

def beginBatching : Method α Unit := fun s ↦ .ok () { s with b := true }

/-- `commit(serverBatching)`. Of the call of `sendRequest` with `udoBatch` and two arguments the
number and the end are left, because the batching has been switched off. -/
def commit (serverBatching : Bool) : Method α ℕ := fun s ↦
  let s := { s with b := false }
  if s.rb = [] then .ok s.cIndex s
  else
    let s := s.count
    .ok s.cIndex { s.transmit (.batch s.cIndex serverBatching s.rb) with rb := [] }

/-- `removeCallback(index)`, applied to `onResult`. -/
def removeCallback (index : ℕ) (onResult : List Result) : List Result :=
  onResult.eraseP fun rc ↦ rc.i = index

def rollback : Method α Unit := fun s ↦
  .ok () { s with
    onResult := (s.rb.map Request.i).foldl (fun l i ↦ removeCallback i l) s.onResult
    rb := []
    b := false }

/-- `cancel()`, with the numbers of the aborted and of the ignored requests. -/
def cancel : Method α (ℕ × ℕ) := fun s ↦
  if s.b = true then .throw .batchingRequests s
  else .ok (s.queuedRequests.length, s.onResult.length - s.queuedRequests.length)
    { s with onResult := [], queuedRequests := [] }

/-- What the page hears of a message: the callback of a request is run, or `push.onMessage`. -/
inductive Heard
  | callback (cb : ℕ) (i : ℕ)
  | onMessage
  | nothing
deriving DecidableEq, Repr

/-- `ws.onmessage` for a message with the number `i`, which is zero for one that is pushed. -/
def onmessage (i : ℕ) : Method α Heard := fun s ↦
  if i = 0 then .ok .onMessage s
  else
    let s := s.dequeue
    match s.onResult.find? fun rc ↦ rc.i = i with
    | none => .ok .onMessage s
    | some p => .ok (if p.cb = true then .callback p.i i else .nothing)
        { s with onResult := removeCallback i s.onResult }

/-- The ping of the timer when nothing is waited for, with its number. The batching is switched off
for a moment. -/
def ping : Method α (Option ℕ) := fun s ↦
  if s.onResult.length + s.queuedRequests.length = 0 then
    match sendRequest (some up) [] true { s with b := false } with
    | .ok i t => .ok (some i) { t with b := s.b }
    | .throw e t => .throw e t
    | .fault => .fault
  else .ok none s

/-! ### Worlds -/

namespace Packet

/-- The number of the call that a packet is written for. -/
def i : Packet α → ℕ
  | single req => req.i
  | batch i _ _ => i

/-- The numbers of the requests in a packet. -/
def requests : Packet α → List ℕ
  | single req => [req.i]
  | batch _ _ rb => rb.map Request.i

/-- The numbers of the responses to a packet. -/
def answers : Packet α → List ℕ
  | single req => if req.n = udoBatch then [] else [req.i]
  | batch _ _ rb => rb.map Request.i

end Packet

/-- A connection with what has happened: the written requests that are `unanswered` and those that
are `answered`, the requests that `sendRequest` has accepted and those of them with a callback, the
ones that were `rolledBack`, the queued ones that were `aborted` by a cancel, all that were
`cancelled`, and the callbacks that `ran` with the numbers of the responses they got. -/
structure World (α : Type) where
  conn : Connection α
  unanswered : List ℕ
  answered : List ℕ
  made : List ℕ
  callbacks : List ℕ
  rolledBack : List ℕ
  aborted : List ℕ
  cancelled : List ℕ
  ran : List (ℕ × ℕ)
deriving DecidableEq, Repr

/-- What the page does or hears. -/
inductive Op (α : Type)
  | sendRequest (methodName : Option String) (a : List α) (cb : Bool)
  | beginBatching
  | commit (serverBatching : Bool)
  | rollback
  | cancel
  | push
  | response (i : ℕ)
  | timer
  | elsewhere
deriving DecidableEq, Repr

namespace World

/-- The connection has changed, and the server has got what has been written. -/
def next (w : World α) (s : Connection α) : World α :=
  { w with
    conn := s
    unanswered := w.unanswered ++ (s.sent.drop w.conn.sent.length).flatMap Packet.answers }

/-- A method is called, and `f` records its result. -/
def call {β : Type} (w : World α) (x : Method α β) (f : β → World α → World α) :
    Option (World α) :=
  match x w.conn with
  | .ok a s => some (f a (w.next s))
  | .throw _ s => some (w.next s)
  | .fault => none

/-- A request has been accepted. -/
def accept (cb : Bool) (i : ℕ) (w : World α) : World α :=
  { w with
    made := w.made ++ [i]
    callbacks := if cb = true then w.callbacks ++ [i] else w.callbacks }

/-- A message has been heard. -/
def hear : Heard → World α → World α
  | .callback cb i, w => { w with ran := w.ran ++ [(cb, i)] }
  | _, w => w

/-- One step. A response comes for a request that has been written and not been answered. -/
def step (w : World α) : Op α → Option (World α)
  | .sendRequest methodName a cb => w.call (WebSocket.sendRequest methodName a cb) (accept cb)
  | .beginBatching => w.call WebSocket.beginBatching fun _ w ↦ w
  | .commit serverBatching => w.call (WebSocket.commit serverBatching) fun _ w ↦ w
  | .rollback => w.call WebSocket.rollback fun _ w' ↦
      { w' with rolledBack := w.rolledBack ++ w.conn.rb.map Request.i }
  | .cancel => w.call WebSocket.cancel fun _ w' ↦
      { w' with
        aborted := w.aborted ++ w.conn.queuedRequests.flatMap Packet.requests
        cancelled := w.cancelled ++ w.conn.onResult.map Result.i }
  | .push => w.call (onmessage 0) hear
  | .response i =>
    if i ∈ w.unanswered then
      { w with unanswered := w.unanswered.erase i, answered := w.answered ++ [i] }.call
        (onmessage i) hear
    else none
  | .timer => w.call ping fun i w' ↦ i.elim w' fun i ↦ w'.accept true i
  | .elsewhere => some { w with conn := { w.conn with callIndex := w.conn.callIndex + 1 } }

/-- A connection that has just been opened. -/
def opened (callIndex : ℕ) : World α :=
  ⟨⟨callIndex, 0, false, [], [], [], []⟩, [], [], [], [], [], [], [], []⟩

end World

end SocketPro.WebSocket
