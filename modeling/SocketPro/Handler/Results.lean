import SocketPro.Handler.Entry

/-!
# Results of database requests

What the Java and the Python `CAsyncDBHandler` have in common. Each call of `Open`, `Prepare`,
`BeginTrans`, `EndTrans` and `Close` adds a `MyCallback` to a second queue beside that of the base
handler, also when no result callback was given, and the result frame of a request takes the one in
front, if it has the id.

The core keeps the requests that it was given and that are not yet answered; here it knows a request
by the `MyCallback` of its call. `Answered.Own` and `Pending` are what a handler owes its callers.
-/

namespace SocketPro.Handler

variable {κ : Type}

/-! ### Calls and frames -/

/-- `DB_CONSTS.idOpen`. -/
def idOpen : UInt16 := 0x7E7F

def idClose : UInt16 := idOpen + 1

def idBeginTrans : UInt16 := idClose + 1

def idEndTrans : UInt16 := idBeginTrans + 1

def idExecute : UInt16 := idEndTrans + 1

def idPrepare : UInt16 := idExecute + 1

/-- `MyCallback<DResult>` of the Java handler, `Pair` of the Python one. The number of the call that
made it is its identity. -/
structure MyCallback (κ : Type) where
  ReqId : UInt16
  Callback : Option κ
  ticket : ℕ
deriving DecidableEq

/-- What the server answers: a result with its code and message, or an exception. -/
inductive Frame
  | result (res : Int32) (errMsg : String)
  | exception
deriving DecidableEq

/-- The invocation of a callback on a result. -/
inductive Invocation (κ : Type)
  /-- The callback of the call with this number is given the handler, a code and a message. -/
  | DResult (ticket : ℕ) (f : κ) (res : Int32) (errMsg : String)
  /-- A callback of the base handler is given the `CAsyncResult`. -/
  | AsyncResult (f : κ)
deriving DecidableEq

/-- The message that the callback is given: `Open` and `BeginTrans` have the connection string there
when they are successful, and pass on an empty one. -/
def passedOn (reqId : UInt16) (res : Int32) (errMsg : String) : String :=
  if res = 0 ∧ (reqId = idOpen ∨ reqId = idBeginTrans) then "" else errMsg

/-- Take the first element, if it has the id. -/
def takeFront {α : Type*} (idOf : α → UInt16) (reqId : UInt16) : List α → Option α × List α
  | a :: rest => if idOf a = reqId then (some a, rest) else (none, a :: rest)
  | [] => (none, [])

/-- `OnResultReturned` for one of the five ids, on the queue of the results. -/
def resultReturned (reqId : UInt16) (res : Int32) (errMsg : String)
    (deqResult : List (MyCallback κ)) : List (MyCallback κ) × List (Invocation κ) :=
  let (t, rest) := takeFront MyCallback.ReqId reqId deqResult
  (rest, t.toList.flatMap fun t ↦
    t.Callback.toList.map fun f ↦ .DResult t.ticket f res (passedOn reqId res errMsg))

/-! ### What a handler owes its callers -/

/-- A request that was answered: its call, the frame, and what was invoked. -/
structure Answered (κ : Type) where
  call : MyCallback κ
  frame : Frame
  invoked : List (Invocation κ)
deriving DecidableEq

/-- What has to be invoked. -/
def MyCallback.due (call : MyCallback κ) : Frame → List (Invocation κ)
  | .result res errMsg => call.Callback.toList.map fun f ↦
      .DResult call.ticket f res (passedOn call.ReqId res errMsg)
  | .exception => []

/-- **A result invokes the callback of its own call**, if one was given, and no other; an exception
invokes none. -/
def Answered.Own (a : Answered κ) : Prop := a.invoked = a.call.due a.frame

instance [DecidableEq κ] (a : Answered κ) : Decidable a.Own :=
  inferInstanceAs (Decidable (_ = _))

/-- **No entry is left behind**: the entries are of requests that are still with the core. -/
def Pending (deqResult : List (MyCallback κ)) (core : Transit.Sender (MyCallback κ)) : Prop :=
  ∀ cb ∈ deqResult, cb ∈ core.all

/-! ### Rules -/

variable {core : Transit.Sender (MyCallback κ)} {deqResult : List (MyCallback κ)}
  {call : MyCallback κ}

theorem pending_of_eq (h : deqResult = core.all) : Pending deqResult core := fun _ hcb ↦ h ▸ hcb

/-- **The result of the first request** takes its own entry, if the queue is that of the core. -/
theorem resultReturned_front (h : deqResult = core.all) (hcall : core.wire.head? = some call)
    (res : Int32) (errMsg : String) :
    resultReturned call.ReqId res errMsg deqResult =
      (core.answered.all, call.due (.result res errMsg)) := by
  obtain ⟨rest, hwire⟩ : ∃ rest, core.wire = call :: rest := ⟨_, (List.cons_head?_tail hcall).symm⟩
  rw [h, Transit.Sender.all_of_wire hwire, resultReturned, takeFront, if_pos rfl]
  exact congrArg _ (List.append_nil _)

/-- An entry that was added and removed again. -/
theorem erase_added [DecidableEq κ] (hnew : call ∉ deqResult) :
    (deqResult ++ [call]).erase call = deqResult := by
  rw [List.erase_append_right _ hnew, List.erase_cons_head, List.append_nil]

/-- Nothing is lost when the core commits its batch and either writes or keeps it, or has none. -/
theorem all_apply {core : Transit.Sender (MyCallback κ)} {r : CommitResult}
    (h : r = .dropped → core.inBatch = []) : (r.apply core).all = core.all := by
  cases r with
  | written => exact Transit.Sender.all_commit
  | dropped =>
    show core.dropBatch.all = core.all
    rw [Transit.Sender.all_dropBatch, Transit.Sender.all, h rfl, List.append_nil]
  | kept => rfl

end SocketPro.Handler
