import Mathlib.Data.List.Basic
import Mathlib.Tactic.TypeStar

/-!
# The callback queues of `CAsyncServiceHandler`

A handler keeps the callbacks of the requests it has sent in two memory queues: `m_vCallback` for
the requests whose answers are awaited and `m_vBatching` for the requests batched inside the core
library. What is queued is a pointer to a pair of a request id and the callbacks registered for it
(`PRR_PAIR`); the pairs themselves are recycled through `m_rrStack`.

Callbacks are values of an arbitrary type `κ`: the handler never looks inside one, it only asks
whether it was given. Every operation is the part of the source function that runs under `m_cs`,
so that the interleavings of a threaded program are interleavings of these operations.
-/

namespace SocketPro.Client

/-- `tagBaseRequestID::idInterrupt`, the answer to an interrupt request. -/
def idInterrupt : UInt16 := 29

/-- `tagBaseRequestID::idReservedTwo`: the ids up to here belong to the framework. -/
def idReservedTwo : UInt16 := 0x2001

variable {κ : Type*}

/-- The callbacks registered with one request. -/
structure CResultCb (κ : Type*) where
  /-- Called with the result of the request. -/
  asyncResultHandler : Option κ
  /-- Called when the request is cancelled or its session closed. -/
  discarded : Option κ
  /-- Called when the server answers with an exception. -/
  exceptionFromServer : Option κ
  deriving DecidableEq

/-- `rh || discarded || serverException`: only such a request is entered into a queue. -/
def CResultCb.given (cb : CResultCb κ) : Bool :=
  cb.asyncResultHandler.isSome || cb.discarded.isSome || cb.exceptionFromServer.isSome

/-- The two ways a server answers a request. -/
inductive AnswerKind where
  | result
  | exception
  deriving DecidableEq

/-- The callback that answers of the given kind are for. -/
def CResultCb.forKind (cb : CResultCb κ) : AnswerKind → Option κ
  | .result => cb.asyncResultHandler
  | .exception => cb.exceptionFromServer

/-- A request without callbacks has none for any answer. -/
theorem CResultCb.forKind_of_not_given {cb : CResultCb κ} (hcb : cb.given = false)
    (kind : AnswerKind) : cb.forKind kind = none := by
  obtain ⟨rh, dis, se⟩ := cb
  cases rh <;> cases dis <;> cases se <;> cases kind <;> simp_all [given, forKind]

/-- What a `PRR_PAIR` points to, together with the address it is compared by. -/
structure RRPair (κ : Type*) where
  addr : ℕ
  first : UInt16
  second : CResultCb κ
  deriving DecidableEq

/-- The callback queues of a handler. `fresh` bounds the addresses handed out by `new` so far. -/
structure CAsyncServiceHandler (κ : Type*) where
  vCallback : List (RRPair κ)
  vBatching : List (RRPair κ)
  rrStack : List ℕ
  fresh : ℕ
  deriving DecidableEq

namespace CAsyncServiceHandler

variable (h : CAsyncServiceHandler κ)

/-! ### The pool of pairs -/

/-- The pair for a new request: one popped from the front of `m_rrStack` and overwritten, or a new
one when the stack is empty. -/
def reuse (reqId : UInt16) (cb : CResultCb κ) : RRPair κ × CAsyncServiceHandler κ :=
  match h.rrStack with
  | addr :: rest => (⟨addr, reqId, cb⟩, { h with rrStack := rest })
  | [] => (⟨h.fresh, reqId, cb⟩, { h with fresh := h.fresh + 1 })

/-- `CRR::Recycle`. -/
def recycle (p : RRPair κ) : CAsyncServiceHandler κ :=
  { h with rrStack := p.addr :: h.rrStack }

/-! ### Queueing and removing a pair -/

/-- The append of `SendRequest`, to the queue chosen by what `IsBatching` returned before. -/
def push (batching : Bool) (p : RRPair κ) : CAsyncServiceHandler κ :=
  if batching then { h with vBatching := h.vBatching ++ [p] }
  else { h with vCallback := h.vCallback ++ [p] }

/-- The queue that a call of `SendRequest` uses, by what `IsBatching` returned to it. -/
def queueOf (batching : Bool) : List (RRPair κ) :=
  if batching then h.vBatching else h.vCallback

/-- `CAsyncServiceHandler::Remove`: drop the last entry that points to `p`; `none` when no entry
does. -/
def removeFrom (q : List (RRPair κ)) (p : RRPair κ) : Option (List (RRPair κ)) :=
  match q with
  | [] => none
  | it :: q =>
    match removeFrom q p with
    | some q' => some (it :: q')
    | none => if it.addr = p.addr then some q else none

/-- The clean-up of `SendRequest` after the core refused the request. -/
def remove (batching : Bool) (p : RRPair κ) : CAsyncServiceHandler κ :=
  if batching then
    match removeFrom h.vBatching p with
    | some q => { h with vBatching := q }.recycle p
    | none => h
  else
    match removeFrom h.vCallback p with
    | some q => { h with vCallback := q }.recycle p
    | none => h

/-! ### Batching -/

/-- The part of `CommitBatching` that runs before the core is told to commit. -/
def commitBatching : CAsyncServiceHandler κ :=
  { h with vCallback := h.vCallback ++ h.vBatching, vBatching := [] }

/-- The part of `AbortBatching` that runs before the core is told to abort: `CleanQueue` recycles
every pair of `m_vBatching`. -/
def abortBatching : CAsyncServiceHandler κ :=
  { h with rrStack := h.rrStack ++ h.vBatching.map RRPair.addr, vBatching := [] }

/-! ### Looking up the callbacks of an answer -/

/-- Pop the first entry with the given request id, wherever it stands. -/
def popById (reqId : UInt16) : List (RRPair κ) → Option (RRPair κ × List (RRPair κ))
  | [] => none
  | p :: q =>
    if p.first = reqId then some (p, q)
    else (popById reqId q).map fun r ↦ (r.1, p :: r.2)

/-- `GetAsyncResultHandler`. On an in-order socket only the front entry is looked at. -/
def getAsyncResultHandler (random : Bool) (reqId : UInt16) :
    Option (RRPair κ) × CAsyncServiceHandler κ :=
  if random then
    match popById reqId h.vCallback with
    | some (p, q) => (some p, { h with vCallback := q })
    | none => (none, h)
  else
    match h.vCallback with
    | p :: q => if p.first = reqId then (some p, { h with vCallback := q }) else (none, h)
    | [] => (none, h)

/-- What an incoming answer leads to: the entry it consumed and the registered callback it ran. -/
structure Invocation (κ : Type*) where
  taken : Option (RRPair κ)
  invoked : Option κ
  deriving DecidableEq

/-- `OnRR`, an incoming result. The interrupt answer is not looked up; a result without a handler
goes to `OnResultReturned`, which runs no registered callback. -/
def onRR (random : Bool) (reqId : UInt16) : Invocation κ × CAsyncServiceHandler κ :=
  if reqId = idInterrupt then (⟨none, none⟩, h)
  else
    match h.getAsyncResultHandler random reqId with
    | (some p, h') => (⟨some p, p.second.asyncResultHandler⟩, h'.recycle p)
    | (none, h') => (⟨none, none⟩, h')

/-- `OnSE`, an incoming server exception. -/
def onSE (random : Bool) (reqId : UInt16) : Invocation κ × CAsyncServiceHandler κ :=
  match h.getAsyncResultHandler random reqId with
  | (some p, h') => (⟨some p, p.second.exceptionFromServer⟩, h'.recycle p)
  | (none, h') => (⟨none, none⟩, h')

/-- An incoming answer of either kind. -/
def onAnswer (kind : AnswerKind) (random : Bool) (reqId : UInt16) :
    Invocation κ × CAsyncServiceHandler κ :=
  match kind with
  | .result => h.onRR random reqId
  | .exception => h.onSE random reqId

/-! ### What the operations do to the queues -/

@[simp] theorem reuse_vCallback (reqId : UInt16) (cb : CResultCb κ) :
    (h.reuse reqId cb).2.vCallback = h.vCallback := by
  unfold reuse
  split <;> rfl

@[simp] theorem reuse_vBatching (reqId : UInt16) (cb : CResultCb κ) :
    (h.reuse reqId cb).2.vBatching = h.vBatching := by
  unfold reuse
  split <;> rfl

@[simp] theorem reuse_first (reqId : UInt16) (cb : CResultCb κ) :
    (h.reuse reqId cb).1.first = reqId := by
  unfold reuse
  split <;> rfl

@[simp] theorem reuse_second (reqId : UInt16) (cb : CResultCb κ) :
    (h.reuse reqId cb).1.second = cb := by
  unfold reuse
  split <;> rfl

theorem queueOf_push (batching batching' : Bool) (p : RRPair κ) :
    (h.push batching p).queueOf batching' =
      if batching' = batching then h.queueOf batching' ++ [p] else h.queueOf batching' := by
  cases batching <;> cases batching' <;> simp [push, queueOf]

@[simp] theorem push_fresh (batching : Bool) (p : RRPair κ) :
    (h.push batching p).fresh = h.fresh := by
  cases batching <;> rfl

@[simp] theorem recycle_vCallback (p : RRPair κ) : (h.recycle p).vCallback = h.vCallback := rfl

/-- Removing the entry queued last drops exactly that entry. -/
theorem removeFrom_append_self (q : List (RRPair κ)) (p : RRPair κ) :
    removeFrom (q ++ [p]) p = some q := by
  induction q with
  | nil => simp [removeFrom]
  | cons it q ih => simp [removeFrom, ih]

/-- Without an entry at that address there is nothing to remove. -/
theorem removeFrom_eq_none {q : List (RRPair κ)} {p : RRPair κ} (h : p.addr ∉ q.map RRPair.addr) :
    removeFrom q p = none := by
  induction q with
  | nil => rfl
  | cons it q ih =>
    rw [List.map_cons, List.mem_cons, not_or] at h
    simp [removeFrom, ih h.2, Ne.symm h.1]

/-- When only one entry stands at that address, removing it drops that entry and keeps the order of
the others. -/
theorem removeFrom_eq_filter {q : List (RRPair κ)} {p : RRPair κ}
    (h : (q.map RRPair.addr).count p.addr = 1) :
    removeFrom q p = some (q.filter fun it ↦ it.addr ≠ p.addr) := by
  induction q with
  | nil => simp at h
  | cons it q ih =>
    by_cases hit : it.addr = p.addr
    · have hnone : p.addr ∉ q.map RRPair.addr := by
        rw [List.map_cons, hit, List.count_cons_self] at h
        exact List.count_eq_zero.1 (by omega)
      have hkeep : q.filter (fun it ↦ it.addr ≠ p.addr) = q := by
        refine List.filter_eq_self.2 fun x hx ↦ ?_
        have hne : x.addr ≠ p.addr := fun heq ↦ hnone (heq ▸ List.mem_map_of_mem hx)
        simpa using hne
      rw [List.filter_cons_of_neg (by simp [hit]), hkeep]
      simp [removeFrom, removeFrom_eq_none hnone, hit]
    · rw [List.map_cons, List.count_cons_of_ne hit] at h
      simp [removeFrom, ih h, hit]

/-- **In-order look-up, hit.** The front entry carries the answer's id: it is consumed, and the
callback it holds for the answer runs. -/
theorem onAnswer_of_front {p : RRPair κ} {q : List (RRPair κ)} {reqId : UInt16}
    (hq : h.vCallback = p :: q) (hfirst : p.first = reqId) (hid : reqId ≠ idInterrupt)
    (kind : AnswerKind) :
    h.onAnswer kind false reqId =
      (⟨some p, p.second.forKind kind⟩, { h with vCallback := q }.recycle p) := by
  have hlook : h.getAsyncResultHandler false reqId = (some p, { h with vCallback := q }) := by
    simp [getAsyncResultHandler, hq, hfirst]
  cases kind
  · simp only [onAnswer, onRR, if_neg hid, hlook, CResultCb.forKind]
  · simp only [onAnswer, onSE, hlook, CResultCb.forKind]

/-- **In-order look-up, miss.** The front entry, if there is one, carries another id: nothing is
consumed and no registered callback runs. -/
theorem onAnswer_of_head_ne {reqId : UInt16} (hq : ∀ p ∈ h.vCallback.head?, p.first ≠ reqId)
    (kind : AnswerKind) : h.onAnswer kind false reqId = (⟨none, none⟩, h) := by
  have hlook : h.getAsyncResultHandler false reqId = (none, h) := by
    rcases hcase : h.vCallback with - | ⟨p, q⟩
    · simp [getAsyncResultHandler, hcase]
    · have hne : p.first ≠ reqId := hq p (by simp [hcase])
      simp [getAsyncResultHandler, hcase, hne]
  cases kind
  · simp [onAnswer, onRR, hlook]
  · simp [onAnswer, onSE, hlook]

end CAsyncServiceHandler

end SocketPro.Client
