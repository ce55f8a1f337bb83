import SocketPro.Foundation.Custody
import SocketPro.Foundation.Transit
import SocketPro.Foundation.Tenancy

/-!
# Requests with callbacks

What the Java and the Python adapter have in common. A call of `SendRequest` with callbacks makes an
entry of the request id and a `CResultCb`, and adds it to one of two queues before it hands the
request to the core. An entry leaves when its request is answered with a result or an exception, or
is given up; then the callback for that is invoked, if it was given.

The core keeps the requests that it was given and that are not yet answered (`Transit.Sender`); what
it knows of a request is a `Request`.
-/

namespace SocketPro.Handler

variable {κ : Type} {α : Type*}

/-- `tagBaseRequestID.idReservedTwo`. -/
def idReservedTwo : UInt16 := 0x2001

/-- `tagBaseRequestID.idInterrupt`. -/
def idInterrupt : UInt16 := 29

/-- `CResultCb`, with the callbacks that were given. -/
structure CResultCb (κ : Type) where
  AsyncResultHandler : Option κ
  Discarded : Option κ
  ExceptionFromServer : Option κ
deriving DecidableEq

/-- Whether `SendRequest` makes an entry. -/
def CResultCb.isGiven (rcb : CResultCb κ) : Bool :=
  rcb.AsyncResultHandler.isSome || rcb.Discarded.isSome || rcb.ExceptionFromServer.isSome

/-- An entry of a queue. The number of the call that made it tells it from others. -/
structure Entry (κ : Type) where
  reqId : UInt16
  rcb : CResultCb κ
  ticket : ℕ
deriving DecidableEq

instance [DecidableEq κ] : LawfulBEq (Entry κ) := inferInstance

/-- The two ways a request is answered. -/
inductive AnswerKind
  | result
  | exception
deriving DecidableEq

/-- Why an entry has left the queues. -/
inductive Reason
  | answered (kind : AnswerKind)
  | givenUp (canceled : Bool)
deriving DecidableEq

/-- The invocation of a callback. -/
inductive Notice (κ : Type)
  | AsyncResultHandler (f : κ)
  | ExceptionFromServer (f : κ)
  | Discarded (f : κ) (canceled : Bool)
deriving DecidableEq

/-- The callback that has to be invoked, if it was given. -/
def Entry.due (kv : Entry κ) : Reason → Option (Notice κ)
  | .answered .result => kv.rcb.AsyncResultHandler.map .AsyncResultHandler
  | .answered .exception => kv.rcb.ExceptionFromServer.map .ExceptionFromServer
  | .givenUp canceled => kv.rcb.Discarded.map (.Discarded · canceled)

/-- The invocation of the callback for a reason. -/
def invoke (kv : Entry κ) (reason : Reason) : List (ℕ × Notice κ) :=
  Custody.noticesOf Entry.ticket Entry.due (kv, reason)

/-- A call of `SendRequest` with callbacks: its entry, and whether it adds it to the batching
queue. -/
structure Call (κ : Type) where
  kv : Entry κ
  batching : Bool
deriving DecidableEq

/-- A request, sent without callbacks or with an entry. -/
inductive Request (κ : Type)
  | plain (reqId : UInt16)
  | tracked (kv : Entry κ)
deriving DecidableEq

/-- The id under which a request is answered. -/
def Request.reqId : Request κ → UInt16
  | .plain reqId => reqId
  | .tracked kv => kv.reqId

def Request.entry : Request κ → Option (Entry κ)
  | .plain _ => none
  | .tracked kv => some kv

/-- The entries of some requests. -/
def entries (l : List (Request κ)) : List (Entry κ) := l.filterMap Request.entry

/-- What the core's `CommitBatching` does: writes the batch; or fails and has dropped the batch; or
fails and has kept it. -/
inductive CommitResult
  | written
  | dropped
  | kept
deriving DecidableEq

/-- The core's `CommitBatching`. -/
def CommitResult.apply (core : Transit.Sender α) : CommitResult → Transit.Sender α
  | .written => core.commit
  | .dropped => core.dropBatch
  | .kept => core

/-- The entries of the requests that the core's `CommitBatching` has dropped. -/
def CommitResult.lost (core : Transit.Sender (Request κ)) : CommitResult → List (Entry κ)
  | .dropped => entries core.inBatch
  | .written | .kept => []

theorem entries_append (l m : List (Request κ)) : entries (l ++ m) = entries l ++ entries m :=
  List.filterMap_append

theorem entries_accept_tracked (core : Transit.Sender (Request κ)) (kv : Entry κ) :
    entries (core.accept (.tracked kv)).all = entries core.all ++ [kv] := by
  rw [Transit.Sender.all_accept, entries_append]
  rfl

theorem entries_accept_plain (core : Transit.Sender (Request κ)) (reqId : UInt16) :
    entries (core.accept (.plain reqId)).all = entries core.all := by
  rw [Transit.Sender.all_accept, entries_append]
  exact List.append_nil _

theorem map_fst_givenUp (l : List (Entry κ)) (canceled : Bool) :
    (l.map (fun p ↦ (p, Reason.givenUp canceled)) : Multiset (Entry κ × Reason)).map Prod.fst =
      (l : Multiset (Entry κ)) := by
  rw [Multiset.map_coe, List.map_map]
  exact congrArg _ (List.map_id _)

theorem apply_sublist (core : Transit.Sender α) (r : CommitResult) :
    (r.apply core).all.Sublist core.all := by
  cases r with
  | written =>
    rw [CommitResult.apply, Transit.Sender.all_commit]
  | dropped => exact Transit.Sender.dropBatch_sublist
  | kept => exact List.Sublist.refl _

/-- An entry that is not in the batch stays with the core when the batch is dropped. -/
theorem mem_dropBatch {core : Transit.Sender (Request κ)} {kv : Entry κ}
    (hin : kv ∈ entries core.all) (hbatch : kv ∉ entries core.inBatch) :
    kv ∈ entries core.dropBatch.all := by
  rw [Transit.Sender.all_dropBatch]
  rw [Transit.Sender.all, entries_append] at hin
  exact (List.mem_append.1 hin).resolve_right hbatch

/-- An entry that is not lost stays with the core. -/
theorem mem_apply {core : Transit.Sender (Request κ)} {r : CommitResult} {kv : Entry κ}
    (hin : kv ∈ entries core.all) (hlost : kv ∉ r.lost core) : kv ∈ entries (r.apply core).all := by
  cases r with
  | written => rwa [CommitResult.apply, Transit.Sender.all_commit]
  | dropped => exact mem_dropBatch hin hlost
  | kept => exact hin

end SocketPro.Handler
