import SocketPro.Foundation.Tenancy
import SocketPro.Client.Batching
import Mathlib.Data.Multiset.Bind

/-!
# The pairs of a handler and the recycle stack

Several threads share one handler. A pair is a pointer: `SendRequest` takes it from `m_rrStack`,
writes the callbacks of its request into it and queues it; an answer, a cancel or a failed send
takes it out of its queue again and puts it back on the stack. Here all windows of these calls are
open: between `Reuse` and the queueing, between the core's answer and `Remove`, between a look-up
and its callback, and inside the loops of `CleanCallbacks` and `EraseBack`.

Each call is cut where it takes or leaves `m_cs` or the lock of `m_rrStack` and where it runs user
code. `EraseBack` runs with `m_cs` held, so while it does only steps that do not take `m_cs` are
enabled. The locks exclude nothing else: `m_csSend`, which the Node build compiles without, is left
out.

**What the pairs hold.** Whoever holds a pointer sees what was written through it last. A pair
handed out again is therefore overwritten wherever it may still stand (`overwrite`).

**The places** of the pairs are multisets of addresses, and `Tenancy.Ledger` records the requests
they were handed to, the pairs recycled and the functions called. `EndsOnce` says that the two
agree.
-/

namespace SocketPro.Client

variable {κ : Type*}

/-- A registered function that was called, with what the handler decides about the call. -/
inductive Notice (κ : Type*) where
  | result (f : κ)
  | exception (f : κ)
  | discarded (f : κ) (canceled : Bool)
  deriving DecidableEq

/-- The function for an answer of the given kind. -/
def CResultCb.answer (cb : CResultCb κ) : AnswerKind → Option (Notice κ)
  | .result => cb.asyncResultHandler.map .result
  | .exception => cb.exceptionFromServer.map .exception

/-- The function for a request that is given up. -/
def CResultCb.discard (cb : CResultCb κ) (canceled : Bool) : Option (Notice κ) :=
  cb.discarded.map fun f ↦ .discarded f canceled

/-- A call of `OnRR` or `OnSE` that took a pair. -/
structure Delivery (κ : Type*) where
  pair : RRPair κ
  kind : AnswerKind
  deriving DecidableEq

/-- A call of `CleanCallbacks`: the queues it took and has not recycled, the one it works on first,
and how many pairs of that one it has passed. -/
structure Cleaning (κ : Type*) where
  queues : List (List (RRPair κ))
  it : ℕ
  deriving DecidableEq

/-- The variables of a call of `EraseBack`. -/
structure Erasing where
  start : ℕ
  count : ℕ
  deriving DecidableEq

/-- A handler shared by threads and the calls in progress. -/
structure SharedHandler (κ : Type*) where
  handler : CAsyncServiceHandler κ
  /-- Calls of `SendRequest` with a pair that is not yet queued. -/
  reading : List (PendingSend κ)
  /-- Calls of `SendRequest` that queued their pair and are in the core. -/
  sending : List (PendingSend κ)
  /-- Calls of `SendRequest` that the core refused, before `Remove`. -/
  refused : List (PendingSend κ)
  /-- Pairs that `Remove` took out of a queue, before `Recycle`. -/
  removed : List (RRPair κ)
  /-- Answers before their callback. -/
  answering : List (Delivery κ)
  /-- Answers after their callback, before `Recycle`. -/
  answered : List (Delivery κ)
  cleanings : List (Cleaning κ)
  /-- The call of `EraseBack`, which holds `m_cs`. -/
  erasing : Option Erasing
  /-- `EraseBack` read past the end of `m_vCallback`. -/
  faulted : Bool
  /-- The requests that obtained a pair, the pairs recycled and the functions called. -/
  ledger : Tenancy.Ledger (Notice κ)

/-- The steps of the threads. -/
inductive PoolAction (κ : Type*) where
  /-- `SendRequest` up to the core's `IsBatching`. -/
  | enter (reqId : UInt16) (cb : CResultCb κ) (batching : Bool)
  /-- The `i`-th reading call queues its pair. -/
  | push (i : ℕ)
  /-- The core's `SendRequest` returns to the `i`-th sending call. -/
  | send (i : ℕ) (sent : Bool)
  /-- `Remove` of the `i`-th refused call. -/
  | remove (i : ℕ)
  /-- `Recycle` of the `i`-th removed pair. -/
  | recycle (i : ℕ)
  /-- `OnRR` or `OnSE` up to and with `GetAsyncResultHandler`. -/
  | lookUp (kind : AnswerKind) (random : Bool) (reqId : UInt16)
  /-- The callback of the `i`-th answer. -/
  | invoke (i : ℕ)
  /-- `Recycle` after the `i`-th callback. -/
  | finish (i : ℕ)
  | commitBatching
  | abortBatching
  /-- `EraseBack` up to its loop. -/
  | eraseBack (count : ℕ)
  /-- The next round of the loop, or the end of `EraseBack`. -/
  | eraseNext
  /-- `CleanCallbacks` up to its first loop. -/
  | clean
  /-- The next pair of the `i`-th call of `CleanCallbacks`, or the end of its queue. `canceled` is
  what the comparison with `GetCurrentRequestID` gives. -/
  | cleanNext (i : ℕ) (canceled : Bool)
  deriving DecidableEq

/-- What a pointer shows after `p` was written through it. -/
def overwrite (p it : RRPair κ) : RRPair κ :=
  if it.addr = p.addr then p else it

@[simp] theorem overwrite_addr (p it : RRPair κ) : (overwrite p it).addr = it.addr := by
  rw [overwrite]
  split <;> simp_all

namespace CAsyncServiceHandler

/-- The handler with one of its queues replaced. -/
def setQueue (h : CAsyncServiceHandler κ) (batching : Bool) (q : List (RRPair κ)) :
    CAsyncServiceHandler κ :=
  if batching then { h with vBatching := q } else { h with vCallback := q }

end CAsyncServiceHandler

/-- The addresses in a queue. -/
def addrs (q : List (RRPair κ)) : Multiset ℕ := (q : Multiset (RRPair κ)).map RRPair.addr

namespace SharedHandler

variable (s : SharedHandler κ)

/-- Apply a function to every pair that some place points to. -/
def mapPairs (f : RRPair κ → RRPair κ) : SharedHandler κ :=
  let send (c : PendingSend κ) : PendingSend κ := { c with pair := f c.pair }
  let deliver (d : Delivery κ) : Delivery κ := { d with pair := f d.pair }
  { s with
    handler := { s.handler with
      vCallback := s.handler.vCallback.map f
      vBatching := s.handler.vBatching.map f }
    reading := s.reading.map send
    sending := s.sending.map send
    refused := s.refused.map send
    removed := s.removed.map f
    answering := s.answering.map deliver
    answered := s.answered.map deliver
    cleanings := s.cleanings.map fun c ↦ { c with queues := c.queues.map (List.map f) } }

/-! ### The calls, cut at their locks -/

/-- A call of `SendRequest` gets a pair and writes its callbacks into it. -/
def obtainPair (o : RRPair κ × CAsyncServiceHandler κ) (batching : Bool) : SharedHandler κ :=
  let t := mapPairs { s with handler := o.2 } (overwrite o.1)
  { t with
    reading := t.reading ++ [⟨o.1, batching⟩]
    ledger := s.ledger.handOut o.1.addr }

/-- The part of `SendRequest` up to the core's `IsBatching`. -/
def enter (reqId : UInt16) (cb : CResultCb κ) (batching : Bool) : SharedHandler κ :=
  if reqId ≤ idReservedTwo then s
  else if cb.given then s.obtainPair (s.handler.reuse reqId cb) batching
  else s

/-- `Remove` of a failed send. A pair that is not found is left alone. -/
def removeFailed (i : ℕ) (c : PendingSend κ) : SharedHandler κ :=
  match CAsyncServiceHandler.removeFrom (s.handler.queueOf c.batching) c.pair with
  | some q =>
    { s with
      handler := s.handler.setQueue c.batching q
      refused := s.refused.eraseIdx i
      removed := s.removed ++ [c.pair] }
  | none => { s with refused := s.refused.eraseIdx i }

/-- `OnRR` and `OnSE` up to and with the look-up. -/
def lookUp (kind : AnswerKind) (random : Bool) (reqId : UInt16) : SharedHandler κ :=
  if kind = .result ∧ reqId = idInterrupt then s
  else
    match s.handler.getAsyncResultHandler random reqId with
    | (some p, h) => { s with handler := h, answering := s.answering ++ [⟨p, kind⟩] }
    | (none, h) => { s with handler := h }

/-- One round of the loop of `EraseBack`. The loop runs until `start` is `count`, and the last
`count` entries are cut off then. -/
def eraseNext (e : Erasing) : SharedHandler κ :=
  if e.start ≠ e.count then
    match s.handler.vCallback[e.start]? with
    | some p =>
      { s with
        handler := s.handler.recycle p
        erasing := some { e with start := e.start + 1 }
        ledger := (s.ledger.use p.addr (p.second.discard true)).finish [p.addr] }
    | none => { s with faulted := true }
  else
    { s with
      handler := { s.handler with
        vCallback := s.handler.vCallback.take (s.handler.vCallback.length - e.count) }
      erasing := none }

/-- The next pair of a call of `CleanCallbacks`. After the last pair of a queue `CleanQueue`
recycles the queue, after the last queue the call returns. -/
def cleanNext (i : ℕ) (c : Cleaning κ) (canceled : Bool) : SharedHandler κ :=
  match c.queues with
  | [] => { s with cleanings := s.cleanings.eraseIdx i }
  | q :: rest =>
    match q[c.it]? with
    | some p =>
      { s with
        cleanings := s.cleanings.set i ⟨q :: rest, c.it + 1⟩
        ledger := s.ledger.use p.addr (p.second.discard canceled) }
    | none =>
      { s with
        handler := { s.handler with rrStack := s.handler.rrStack ++ q.map RRPair.addr }
        cleanings := s.cleanings.set i ⟨rest, 0⟩
        ledger := s.ledger.finish (q.map RRPair.addr) }

/-- A step that takes `m_cs`. -/
def underLock (t : Option (SharedHandler κ)) : Option (SharedHandler κ) :=
  match s.erasing with
  | none => t
  | some _ => none

/-- What an action does; `none` when it is not enabled. -/
def act : PoolAction κ → Option (SharedHandler κ)
  | .enter reqId cb batching => some (s.enter reqId cb batching)
  | .push i => s.underLock <| s.reading[i]?.map fun c ↦
      { s with
        handler := s.handler.push c.batching c.pair
        reading := s.reading.eraseIdx i
        sending := s.sending ++ [c] }
  | .send i sent => s.sending[i]?.map fun c ↦
      { s with
        sending := s.sending.eraseIdx i
        refused := if sent then s.refused else s.refused ++ [c] }
  | .remove i => s.underLock <| s.refused[i]?.map (s.removeFailed i)
  | .recycle i => s.removed[i]?.map fun p ↦
      { s with
        handler := s.handler.recycle p
        removed := s.removed.eraseIdx i
        ledger := s.ledger.finish [p.addr] }
  | .lookUp kind random reqId => s.underLock <| some (s.lookUp kind random reqId)
  | .invoke i => s.answering[i]?.map fun d ↦
      { s with
        answering := s.answering.eraseIdx i
        answered := s.answered ++ [d]
        ledger := s.ledger.use d.pair.addr (d.pair.second.answer d.kind) }
  | .finish i => s.answered[i]?.map fun d ↦
      { s with
        handler := s.handler.recycle d.pair
        answered := s.answered.eraseIdx i
        ledger := s.ledger.finish [d.pair.addr] }
  | .commitBatching => s.underLock <| some { s with handler := s.handler.commitBatching }
  | .abortBatching => s.underLock <| some
      { s with
        handler := s.handler.abortBatching
        ledger := s.ledger.finish (s.handler.vBatching.map RRPair.addr) }
  | .eraseBack count => s.underLock <| some
      { s with
        erasing :=
          let total := s.handler.vCallback.length
          let count := min count total
          some ⟨total - count, count⟩ }
  | .eraseNext => s.erasing.map s.eraseNext
  | .clean => s.underLock <| some
      { s with
        handler := { s.handler with vCallback := [], vBatching := [] }
        cleanings := s.cleanings ++ [⟨[s.handler.vBatching, s.handler.vCallback], 0⟩] }
  | .cleanNext i canceled => s.cleanings[i]?.map fun c ↦ s.cleanNext i c canceled

/-- One step. After a read past the end of the queue nothing is said any more. -/
def step (s : SharedHandler κ) (a : PoolAction κ) : Option (SharedHandler κ) :=
  if s.faulted then none else s.act a

/-- A handler nobody uses yet, with a stack of recycled pairs, which are numbered from its front. -/
def initial (stack : ℕ) : SharedHandler κ where
  handler := ⟨[], [], List.range stack, stack⟩
  reading := []
  sending := []
  refused := []
  removed := []
  answering := []
  answered := []
  cleanings := []
  erasing := none
  faulted := false
  ledger := ⟨fun _ ↦ 0, 0, [], []⟩

/-! ### Where the pairs are -/

/-- The entries of `m_vCallback`. Those that a running `EraseBack` has passed are recycled, and its
last statement cuts them off. -/
def queued : List (RRPair κ) :=
  match s.erasing with
  | none => s.handler.vCallback
  | some e =>
    s.handler.vCallback.take (s.handler.vCallback.length - e.count) ++
      s.handler.vCallback.drop e.start

/-- The pairs in the hands of running calls. -/
def inHands : Multiset ℕ :=
  (s.reading : Multiset (PendingSend κ)).map (fun c ↦ c.pair.addr) + addrs s.removed +
    (s.answering : Multiset (Delivery κ)).map (fun d ↦ d.pair.addr) +
    (s.answered : Multiset (Delivery κ)).map (fun d ↦ d.pair.addr) +
    (s.cleanings : Multiset (Cleaning κ)).bind fun c ↦ addrs c.queues.flatten

/-- The pairs that are not on the stack. -/
def held : Multiset ℕ := addrs s.queued + addrs s.handler.vBatching + s.inHands

/-- **Every callback ends once.** -/
structure EndsOnce : Prop where
  /-- Every pair is in one of the queues, in the hands of one running call or on the stack. -/
  onePlace : ∀ addr, s.held.count addr + s.handler.rrStack.count addr =
    if addr < s.handler.fresh then 1 else 0
  /-- Every request holds one pair or has given it back, once. -/
  recycledOnce : ∀ r, (s.held.map s.ledger.tenant).count r + s.ledger.ended.count r =
    if r < s.ledger.tenures then 1 else 0
  /-- At most one of a request's functions was called, and that one once. -/
  invokedOnce : ∀ r, (s.ledger.uses.map Prod.fst).count r ≤ 1
  noFault : s.faulted = false

/-- A call of `EraseBack` is asked to erase all of `m_vCallback`. -/
def ErasesAll (s : SharedHandler κ) : PoolAction κ → Prop
  | .eraseBack count => s.handler.vCallback.length ≤ count
  | _ => True

instance (s : SharedHandler κ) (a : PoolAction κ) : Decidable (s.ErasesAll a) := by
  cases a <;> unfold ErasesAll <;> infer_instance

/-! ### What a step does not touch -/

variable {s} {t : SharedHandler κ}

theorem underLock_eq_some {u : Option (SharedHandler κ)} (h : s.underLock u = some t) :
    s.erasing = none ∧ u = some t := by
  unfold underLock at h
  split at h
  · exact ⟨‹_›, h⟩
  · exact absurd h (by simp)

theorem step_eq_some {a : PoolAction κ} (h : s.step a = some t) :
    s.faulted = false ∧ s.act a = some t := by
  unfold step at h
  split at h
  · exact absurd h (by simp)
  · rename_i hfault
    exact ⟨Bool.not_eq_true _ ▸ hfault, h⟩

/-- **The frame lemma.** Outside the loop of `EraseBack` a step faults at nothing, and while the
call holds `m_cs` the length of `m_vCallback` stays as it is. -/
theorem act_frame (a : PoolAction κ) (ha : a ≠ .eraseNext) (hact : s.act a = some t) :
    t.faulted = s.faulted ∧
      ((t.erasing = s.erasing ∧
          ∀ e ∈ s.erasing, t.handler.vCallback.length = s.handler.vCallback.length) ∨
        ∃ count, a = .eraseBack count ∧ s.erasing = none ∧ t.handler = s.handler ∧
          t.erasing = some ⟨s.handler.vCallback.length - min count s.handler.vCallback.length,
            min count s.handler.vCallback.length⟩) := by
  -- a step under the lock: no call of `EraseBack` holds it
  have hlocked {u : SharedHandler κ} (hfree : s.erasing = none) (hu : u.erasing = none) :
      u.erasing = s.erasing ∧
        ∀ e ∈ s.erasing, u.handler.vCallback.length = s.handler.vCallback.length :=
    ⟨hu.trans hfree.symm, by simp [hfree]⟩
  cases a with
  | enter reqId cb batching =>
    obtain rfl := Option.some.inj hact
    unfold enter
    split
    · exact ⟨rfl, .inl ⟨rfl, fun _ _ ↦ rfl⟩⟩
    · split
      · exact ⟨rfl, .inl ⟨rfl, fun _ _ ↦ by simp [obtainPair, mapPairs]⟩⟩
      · exact ⟨rfl, .inl ⟨rfl, fun _ _ ↦ rfl⟩⟩
  | push i =>
    obtain ⟨hfree, hact⟩ := underLock_eq_some hact
    obtain ⟨c, hc, rfl⟩ := Option.map_eq_some_iff.1 hact
    exact ⟨rfl, .inl (hlocked hfree hfree)⟩
  | send i sent =>
    obtain ⟨c, hc, rfl⟩ := Option.map_eq_some_iff.1 hact
    exact ⟨rfl, .inl ⟨rfl, fun _ _ ↦ rfl⟩⟩
  | remove i =>
    obtain ⟨hfree, hact⟩ := underLock_eq_some hact
    obtain ⟨c, hc, rfl⟩ := Option.map_eq_some_iff.1 hact
    unfold removeFailed
    split <;> exact ⟨rfl, .inl (hlocked hfree hfree)⟩
  | recycle i =>
    obtain ⟨p, hp, rfl⟩ := Option.map_eq_some_iff.1 hact
    exact ⟨rfl, .inl ⟨rfl, fun _ _ ↦ rfl⟩⟩
  | lookUp kind random reqId =>
    obtain ⟨hfree, hact⟩ := underLock_eq_some hact
    obtain rfl := Option.some.inj hact
    unfold lookUp
    split
    · exact ⟨rfl, .inl (hlocked hfree hfree)⟩
    · split <;> exact ⟨rfl, .inl (hlocked hfree hfree)⟩
  | invoke i =>
    obtain ⟨d, hd, rfl⟩ := Option.map_eq_some_iff.1 hact
    exact ⟨rfl, .inl ⟨rfl, fun _ _ ↦ rfl⟩⟩
  | finish i =>
    obtain ⟨d, hd, rfl⟩ := Option.map_eq_some_iff.1 hact
    exact ⟨rfl, .inl ⟨rfl, fun _ _ ↦ rfl⟩⟩
  | commitBatching =>
    obtain ⟨hfree, hact⟩ := underLock_eq_some hact
    exact Option.some.inj hact ▸ ⟨rfl, .inl (hlocked hfree hfree)⟩
  | abortBatching =>
    obtain ⟨hfree, hact⟩ := underLock_eq_some hact
    exact Option.some.inj hact ▸ ⟨rfl, .inl (hlocked hfree hfree)⟩
  | eraseBack count =>
    obtain ⟨hfree, hact⟩ := underLock_eq_some hact
    exact Option.some.inj hact ▸ ⟨rfl, .inr ⟨count, rfl, hfree, rfl, rfl⟩⟩
  | eraseNext => exact absurd rfl ha
  | clean =>
    obtain ⟨hfree, hact⟩ := underLock_eq_some hact
    exact Option.some.inj hact ▸ ⟨rfl, .inl (hlocked hfree hfree)⟩
  | cleanNext i canceled =>
    obtain ⟨c, hc, rfl⟩ := Option.map_eq_some_iff.1 hact
    unfold cleanNext
    split
    · exact ⟨rfl, .inl ⟨rfl, fun _ _ ↦ rfl⟩⟩
    · split <;> exact ⟨rfl, .inl ⟨rfl, fun _ _ ↦ rfl⟩⟩

end SharedHandler

end SocketPro.Client
