import SocketPro.Foundation.Run
import SocketPro.Foundation.InLine
import SocketPro.Foundation.Tenancy

/-!
# The callback queues of the Go `CAsyncHandler`

Several goroutines and the callbacks of the core library share one handler whose socket is not
random. `SendRequest` reads `IsBatching`, takes `csSend`, pushes its entry under `cs` and calls the
core; after a refusal it pops the last entry of the queue it pushed to, with `csSend` released.
`getARH` takes and releases `cs` before it looks at the queue. `CommitBatching` and `AbortBatching`
change the queues under `cs` and call the core afterwards.

Each call is cut where it takes or leaves `cs` or `csSend`, at the calls of the core, and in
`getARH` at the calls of the deque. Goroutines have no identity in the code, so the state lists the
calls in progress by the point they have reached.

**The core** keeps the requests it was given: batched ones in its batch, written ones on the wire.
A commit writes the batch; when it fails the core has dropped the batch or kept it.

`OneOutcome` is what the handler owes its callers. `Orderly` is the condition on the steps under
which it does; that this is enough is proved in the next module.
-/

namespace SocketPro.Go

/-! ### Deques -/

/-- `Deque` of the package `deque`, by its documented behaviour: the operations on the elements,
front first. `none` is a panic. -/
structure DequePackage (α : Type) where
  Deque : Type
  elems : Deque → List α
  new : Deque
  Len : Deque → ℕ
  Front : Deque → Option α
  PushBack : Deque → α → Deque
  PopFront : Deque → Option (α × Deque)
  PopBack : Deque → Option (α × Deque)
  elems_new : elems new = []
  len_eq : ∀ d, Len d = (elems d).length
  front_eq : ∀ d, Front d = (elems d).head?
  elems_pushBack : ∀ d a, elems (PushBack d a) = elems d ++ [a]
  popFront_eq : ∀ d, (PopFront d).map (Prod.map id elems) =
    (elems d).head?.map fun a ↦ (a, (elems d).tail)
  popBack_eq : ∀ d, (PopBack d).map (Prod.map id elems) =
    (elems d).getLast?.map fun a ↦ (a, (elems d).dropLast)

namespace DequePackage

variable {α : Type} (D : DequePackage α)

attribute [simp] elems_new elems_pushBack

/-- Lists are deques. -/
def ofList (α : Type) : DequePackage α where
  Deque := List α
  elems l := l
  new := []
  Len := List.length
  Front := List.head?
  PushBack l a := l ++ [a]
  PopFront l := l.head?.map fun a ↦ (a, l.tail)
  PopBack l := l.getLast?.map fun a ↦ (a, l.dropLast)
  elems_new := rfl
  len_eq _ := rfl
  front_eq _ := rfl
  elems_pushBack _ _ := rfl
  popFront_eq l := by cases l <;> rfl
  popBack_eq l := by cases l.getLast? <;> rfl

theorem elems_of_popFront {d d' : D.Deque} {a : α} (h : D.PopFront d = some (a, d')) :
    D.elems d = a :: D.elems d' := by
  have hlaw := D.popFront_eq d
  rw [h, Option.map_some] at hlaw
  obtain ⟨b, hb, heq⟩ := Option.map_eq_some_iff.1 hlaw.symm
  obtain ⟨rfl, htail⟩ := Prod.mk.inj heq
  rw [← htail]
  exact (List.cons_head?_tail hb).symm

theorem elems_of_popBack {d d' : D.Deque} {a : α} (h : D.PopBack d = some (a, d')) :
    D.elems d = D.elems d' ++ [a] := by
  have hlaw := D.popBack_eq d
  rw [h, Option.map_some] at hlaw
  obtain ⟨b, hb, heq⟩ := Option.map_eq_some_iff.1 hlaw.symm
  obtain ⟨rfl, hinit⟩ := Prod.mk.inj heq
  rw [← hinit]
  exact (List.dropLast_append_getLast? _ hb).symm

theorem elems_of_popFront_none {d : D.Deque} (h : D.PopFront d = none) : D.elems d = [] := by
  have hlaw := D.popFront_eq d
  rw [h, Option.map_none] at hlaw
  exact List.head?_eq_none_iff.1 (Option.map_eq_none_iff.1 hlaw.symm)

theorem elems_of_popBack_none {d : D.Deque} (h : D.PopBack d = none) : D.elems d = [] := by
  have hlaw := D.popBack_eq d
  rw [h, Option.map_none] at hlaw
  exact List.getLast?_eq_none_iff.1 (Option.map_eq_none_iff.1 hlaw.symm)

/-- `for src.Len() > 0 { dst.PushBack(src.PopFront()) }`, with the number of rounds. -/
def drain : ℕ → D.Deque → D.Deque → D.Deque × D.Deque
  | 0, dst, src => (dst, src)
  | n + 1, dst, src =>
    match D.PopFront src with
    | some (a, src) => drain n (D.PushBack dst a) src
    | none => (dst, src)

/-- All elements of `src` moved behind those of `dst`. -/
def moveAll (dst src : D.Deque) : D.Deque × D.Deque := D.drain (D.Len src) dst src

theorem elems_drain (n : ℕ) {dst src : D.Deque} (hn : (D.elems src).length = n) :
    D.elems (D.drain n dst src).1 = D.elems dst ++ D.elems src ∧
      D.elems (D.drain n dst src).2 = [] := by
  induction n generalizing dst src with
  | zero =>
    rw [drain, List.length_eq_zero_iff.1 hn, List.append_nil]
    exact ⟨rfl, rfl⟩
  | succ n ih =>
    rw [drain]
    split
    · next a src' hpop =>
      have helems := D.elems_of_popFront hpop
      rw [helems] at hn ⊢
      obtain ⟨hdst, hsrc⟩ := @ih (D.PushBack dst a) src' (Nat.succ.inj hn)
      rw [hdst, elems_pushBack, List.append_assoc]
      exact ⟨rfl, hsrc⟩
    · next hpop =>
      rw [D.elems_of_popFront_none hpop] at hn
      exact absurd hn (Nat.succ_ne_zero n).symm

theorem elems_moveAll (dst src : D.Deque) :
    D.elems (D.moveAll dst src).1 = D.elems dst ++ D.elems src ∧
      D.elems (D.moveAll dst src).2 = [] :=
  D.elems_drain _ (D.len_eq src).symm

end DequePackage

/-! ### Entries -/

variable {κ : Type}

/-- `cresultCb`, and the number of the call of `SendRequest` that made it. -/
structure cresultCb (κ : Type) where
  reqId : UInt16
  rh : Option κ
  discarded : Option κ
  se : Option κ
  ticket : ℕ
deriving DecidableEq

/-- The two ways a request is answered. -/
inductive AnswerKind
  | result
  | exception
deriving DecidableEq

/-- Why an entry has left the queues. -/
inductive Reason
  | answered (kind : AnswerKind)
  | givenUp (canceled : Bool)
deriving DecidableEq

/-- A function that was called. -/
inductive Notice (κ : Type)
  | rh (f : κ)
  | se (f : κ)
  | discarded (f : κ) (canceled : Bool)
deriving DecidableEq

/-- The function that has to be called, if it was given. -/
def cresultCb.due (e : cresultCb κ) : Reason → Option (Notice κ)
  | .answered .result => e.rh.map .rh
  | .answered .exception => e.se.map .se
  | .givenUp canceled => e.discarded.map (.discarded · canceled)

/-- A call of `SendRequest` with callbacks: its entry, and what `IsBatching` returned to it. -/
structure Call (κ : Type) where
  entry : cresultCb κ
  batching : Bool
deriving DecidableEq

/-- An entry that has left the queues, and the function that was called for it. -/
structure Exit (κ : Type) where
  entry : cresultCb κ
  reason : Reason
  called : Option (Notice κ)
deriving DecidableEq

/-! ### The handler and its calls -/

/-- A call of `CleanCallbacks` that took the queues. -/
structure Cleaning (D : DequePackage (cresultCb κ)) where
  b : D.Deque
  cb : D.Deque
  canceled : Bool

/-- A handler, the calls in progress and the core. -/
structure AsyncHandler (D : DequePackage (cresultCb κ)) where
  qCallback : D.Deque
  qBatching : D.Deque
  /-- `SendRequest` behind `IsBatching`, `csSend` not yet taken. -/
  reading : List (Call κ)
  /-- The holder of `csSend`: its entry is pushed, the core not yet called. -/
  sending : Option (Call κ)
  /-- The core refused the request, the queue is not yet popped. -/
  refused : List (Call κ)
  /-- `CommitBatching` before its core call. -/
  committing : ℕ
  /-- `AbortBatching` before its core call. -/
  aborting : ℕ
  /-- `getARH` behind `Len`. -/
  looking : List (AnswerKind × UInt16)
  /-- `getARH` behind `Front`. -/
  matched : List AnswerKind
  /-- The answer of a popped entry, before its function. -/
  answering : List (cresultCb κ × AnswerKind)
  cleanings : List (Cleaning D)
  /-- The core is batching. -/
  batching : Bool
  /-- The requests in the core's batch. -/
  batch : List ℕ
  /-- The requests written. -/
  wire : List ℕ
  /-- The number of calls of `SendRequest` with callbacks so far. -/
  tickets : ℕ
  /-- The entries that have left the queues for a function, or for none. -/
  exits : List (Exit κ)
  /-- The entries popped by calls of `SendRequest` that returned false. -/
  takenBack : List (Call κ × cresultCb κ)
  /-- The entries moved to other handlers. -/
  merged : List (cresultCb κ)
  panicked : Bool

/-- What the core's `CommitBatching` does: writes the batch; or fails and has dropped the batch; or
fails and has kept it. -/
inductive CommitResult
  | written
  | dropped
  | kept
deriving DecidableEq

/-- The steps of the goroutines and of the core's callbacks. -/
inductive Action (κ : Type)
  /-- `SendRequest` up to and with `IsBatching`. -/
  | enter (reqId : UInt16) (rh discarded se : Option κ)
  /-- The `i`-th reading call takes `csSend` and pushes its entry. -/
  | push (i : ℕ)
  /-- The core's `SendRequest` returns to the holder of `csSend`. -/
  | send (sent : Bool)
  /-- `SendRequest` without callbacks. -/
  | sendPlain (sent : Bool)
  /-- The `i`-th refused call pops the queue. -/
  | popBack (i : ℕ)
  | startBatching (ok : Bool)
  /-- `CommitBatching` up to its core call. -/
  | commitBatching
  | coreCommit (r : CommitResult)
  /-- `AbortBatching` up to its core call. -/
  | abortBatching
  | coreAbort (ok : Bool)
  /-- `getARH` up to and with `Len`. -/
  | lookUp (kind : AnswerKind) (reqId : UInt16)
  /-- `Front` in the `i`-th looking call. -/
  | front (i : ℕ)
  /-- `PopFront` in the `i`-th matched call. -/
  | popFront (i : ℕ)
  /-- The function of the `i`-th answer. -/
  | answer (i : ℕ)
  | appendTo
  /-- `CleanCallbacks` up to its loops. -/
  | clean (canceled : Bool)
  /-- The next round in the `i`-th call of `CleanCallbacks`, or its end. -/
  | cleanNext (i : ℕ)
deriving DecidableEq

namespace AsyncHandler

variable {D : DequePackage (cresultCb κ)} (s : AsyncHandler D)

/-- The queue that a call pushes to and pops from. -/
def queueOf (batching : Bool) : D.Deque := if batching then s.qBatching else s.qCallback

def setQueue (batching : Bool) (q : D.Deque) : AsyncHandler D :=
  if batching then { s with qBatching := q } else { s with qCallback := q }

/-- `SendRequest` up to the lock. -/
def enter (reqId : UInt16) (rh discarded se : Option κ) : AsyncHandler D :=
  { s with
    reading := s.reading ++ [⟨⟨reqId, rh, discarded, se, s.tickets⟩, s.batching⟩]
    tickets := s.tickets + 1 }

/-- The core's `SendRequest`. -/
def coreSend (c : Call κ) (sent : Bool) : AsyncHandler D :=
  if sent then
    if s.batching then { s with sending := none, batch := s.batch ++ [c.entry.ticket] }
    else { s with sending := none, wire := s.wire ++ [c.entry.ticket] }
  else { s with sending := none, refused := s.refused ++ [c] }

/-- The end of a failed `SendRequest`: `PopBack` takes whatever is last. -/
def popBack (i : ℕ) (c : Call κ) : AsyncHandler D :=
  match D.PopBack (s.queueOf c.batching) with
  | some (e, q) =>
    { s.setQueue c.batching q with
      refused := s.refused.eraseIdx i
      takenBack := s.takenBack ++ [(c, e)] }
  | none => { s with panicked := true }

/-- `CommitBatching` under `cs`. -/
def commitBatching : AsyncHandler D :=
  let moved := D.moveAll s.qCallback s.qBatching
  { s with qCallback := moved.1, qBatching := moved.2, committing := s.committing + 1 }

def coreCommit (n : ℕ) : CommitResult → AsyncHandler D
  | .written =>
    { s with committing := n, batching := false, wire := s.wire ++ s.batch, batch := [] }
  | .dropped => { s with committing := n, batching := false, batch := [] }
  | .kept => { s with committing := n }

/-- `AbortBatching` under `cs`: the entries are dropped with the old queue. -/
def abortBatching : AsyncHandler D :=
  { s with
    qBatching := D.new
    aborting := s.aborting + 1
    exits := s.exits ++ (D.elems s.qBatching).map fun e ↦ ⟨e, .givenUp true, none⟩ }

def coreAbort (n : ℕ) (ok : Bool) : AsyncHandler D :=
  if ok then { s with aborting := n, batching := false, batch := [] }
  else { s with aborting := n }

/-- `getARH`: `qCallback.Len() == 0`. -/
def lookUp (kind : AnswerKind) (reqId : UInt16) : AsyncHandler D :=
  if D.Len s.qCallback = 0 then s else { s with looking := s.looking ++ [(kind, reqId)] }

/-- `getARH`: `qCallback.Front().reqId == reqId`. -/
def front (i : ℕ) (kind : AnswerKind) (reqId : UInt16) : AsyncHandler D :=
  match D.Front s.qCallback with
  | some e =>
    if e.reqId = reqId then
      { s with looking := s.looking.eraseIdx i, matched := s.matched ++ [kind] }
    else { s with looking := s.looking.eraseIdx i }
  | none => { s with panicked := true }

/-- `getARH`: `qCallback.PopFront()`. -/
def popFront (i : ℕ) (kind : AnswerKind) : AsyncHandler D :=
  match D.PopFront s.qCallback with
  | some (e, q) =>
    { s with
      qCallback := q
      matched := s.matched.eraseIdx i
      answering := s.answering ++ [(e, kind)] }
  | none => { s with panicked := true }

/-- `rcb.rh(&ar)` of `requestprocessed_go`, `rcb.se(...)` of `serverexception_go`. An entry whose
`reqId` is 0 counts as none. -/
def answer (i : ℕ) (e : cresultCb κ) (kind : AnswerKind) : AsyncHandler D :=
  { s with
    answering := s.answering.eraseIdx i
    exits := s.exits ++ [⟨e, .answered kind, if 0 < e.reqId then e.due (.answered kind) else none⟩] }

/-- `appendTo`, the part of the handler that is merged into another one. -/
def appendTo : AsyncHandler D :=
  { s with qCallback := D.new, merged := s.merged ++ D.elems s.qCallback }

/-- `CleanCallbacks` under `cs`. -/
def clean (canceled : Bool) : AsyncHandler D :=
  { s with
    qCallback := D.new
    qBatching := D.new
    cleanings := s.cleanings ++ [⟨s.qBatching, s.qCallback, canceled⟩] }

/-- The loops of `CleanCallbacks`. -/
def cleanNext (i : ℕ) (c : Cleaning D) : AsyncHandler D :=
  match D.PopFront c.b with
  | some (e, b) =>
    { s with
      cleanings := s.cleanings.set i { c with b := b }
      exits := s.exits ++ [⟨e, .givenUp c.canceled, e.due (.givenUp c.canceled)⟩] }
  | none =>
    match D.PopFront c.cb with
    | some (e, cb) =>
      { s with
        cleanings := s.cleanings.set i { c with cb := cb }
        exits := s.exits ++ [⟨e, .givenUp c.canceled, e.due (.givenUp c.canceled)⟩] }
    | none => { s with cleanings := s.cleanings.eraseIdx i }

/-- What an action does; `none` when it is not enabled. -/
def act : Action κ → Option (AsyncHandler D)
  | .enter reqId rh discarded se =>
    if rh.isSome || discarded.isSome || se.isSome then some (s.enter reqId rh discarded se)
    else none
  | .push i =>
    match s.sending, s.reading[i]? with
    | none, some c =>
      some { s.setQueue c.batching (D.PushBack (s.queueOf c.batching) c.entry) with
        reading := s.reading.eraseIdx i
        sending := some c }
    | _, _ => none
  | .send sent => s.sending.map fun c ↦ s.coreSend c sent
  | .sendPlain _ =>
    match s.sending with
    | none => some s
    | some _ => none
  | .popBack i => s.refused[i]?.map (s.popBack i)
  | .startBatching ok => some (if ok then { s with batching := true } else s)
  | .commitBatching => some s.commitBatching
  | .coreCommit r =>
    match s.committing with
    | 0 => none
    | n + 1 => some (s.coreCommit n r)
  | .abortBatching => some s.abortBatching
  | .coreAbort ok =>
    match s.aborting with
    | 0 => none
    | n + 1 => some (s.coreAbort n ok)
  | .lookUp kind reqId => some (s.lookUp kind reqId)
  | .front i => s.looking[i]?.map fun l ↦ s.front i l.1 l.2
  | .popFront i => s.matched[i]?.map (s.popFront i)
  | .answer i => s.answering[i]?.map fun a ↦ s.answer i a.1 a.2
  | .appendTo => some s.appendTo
  | .clean canceled => some (s.clean canceled)
  | .cleanNext i => s.cleanings[i]?.map (s.cleanNext i)

/-- One step; after a panic there is none. -/
def step (s : AsyncHandler D) (a : Action κ) : Option (AsyncHandler D) :=
  if s.panicked then none else s.act a

/-- A handler nobody has used. -/
def initial (D : DequePackage (cresultCb κ)) : AsyncHandler D where
  qCallback := D.new
  qBatching := D.new
  reading := []
  sending := none
  refused := []
  committing := 0
  aborting := 0
  looking := []
  matched := []
  answering := []
  cleanings := []
  batching := false
  batch := []
  wire := []
  tickets := 0
  exits := []
  takenBack := []
  merged := []
  panicked := false

/-! ### What the handler owes its callers -/

/-- The tickets of entries. -/
def ticketsOf (q : List (cresultCb κ)) : List ℕ := q.map cresultCb.ticket

/-- The entries that have not left: not yet pushed, in a queue, or in the hands of a call. -/
def present : List (cresultCb κ) :=
  s.reading.map Call.entry ++ D.elems s.qCallback ++ D.elems s.qBatching ++
    s.answering.map Prod.fst ++ s.cleanings.flatMap fun c ↦ D.elems c.b ++ D.elems c.cb

/-- The entries that have left. -/
def gone : List (cresultCb κ) := s.exits.map Exit.entry ++ s.takenBack.map Prod.snd ++ s.merged

/-- **One outcome for each request.** -/
structure OneOutcome : Prop where
  /-- A failed call takes its own entry back. -/
  ownEntry : ∀ p ∈ s.takenBack, p.2 = p.1.entry
  /-- Every entry is present or has left, once. -/
  once : ∀ r, (ticketsOf s.present).count r + (ticketsOf s.gone).count r =
    if r < s.tickets then 1 else 0
  /-- For an entry that has left the function that is due was called, if it was given. -/
  called : ∀ x ∈ s.exits, x.called = x.entry.due x.reason
  /-- The entries of written requests stand in the order of the wire. -/
  order : Machine.InLine (ticketsOf (D.elems s.qCallback)) s.wire
  noPanic : s.panicked = false

/-- The conditions on the steps.
* `push`: no entry goes to `qCallback` while `qBatching` holds one whose request is in the core's
  batch or on the wire.
* `popBack`: the entry of the failed call is the last one of its queue.
* `front`, `popFront`: `qCallback` is not empty.
* `abortBatching`: no entry of `qBatching` has a `discarded` function.
* `answer`: the id of the request is not 0. -/
def Orderly (s : AsyncHandler D) : Action κ → Prop
  | .push i => ∀ c ∈ s.reading[i]?, c.batching = false →
      ∀ e ∈ D.elems s.qBatching, e.ticket ∉ s.wire ++ s.batch
  | .popBack i => ∀ c ∈ s.refused[i]?,
      (D.elems (s.queueOf c.batching)).getLast? = some c.entry
  | .front _ | .popFront _ => D.elems s.qCallback ≠ []
  | .abortBatching => ∀ e ∈ D.elems s.qBatching, e.discarded = none
  | .answer i => ∀ a ∈ s.answering[i]?, a.1.due (.answered a.2) ≠ none → 0 < a.1.reqId
  | _ => True

instance [DecidableEq κ] (s : AsyncHandler D) (a : Action κ) : Decidable (s.Orderly a) := by
  cases a <;> unfold Orderly <;> infer_instance

end AsyncHandler

end SocketPro.Go
