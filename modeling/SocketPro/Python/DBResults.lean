import SocketPro.Foundation.Run
import SocketPro.Handler.Results

/-!
# Results of the Python `CAsyncDBHandler`

Several database handlers on sockets that answer in order, in histories where each call runs to its
end. A call appends an entry to `_deqResult` and sends its request; the base handler makes an entry
of its own when it is given a callback. `Close` gives it its result handler as `arh`, the others
give it `None`.

The server answers the wire in order, with a result or an exception. `_OnRR_` and `_OnSE_` take the
entry of the base handler; a result whose entry has no `arh` goes on to `OnResultReturned`, which
takes the entry of `_deqResult`. No handler of the event `ResultReturned` is set.

`pythonResults_own`: a run in which every request ends with a result that goes on to
`OnResultReturned` keeps `_deqResult` equal to the list of the requests that are with the core.
-/

namespace SocketPro.Python.DBHandler

open Machine Handler Transit

variable {κ : Type}

/-! ### One handler -/

/-- A handler with its socket. -/
structure CAsyncDBHandler (κ : Type) where
  m_kvCallback : List (Entry κ)
  m_kvBatching : List (Entry κ)
  deqResult : List (MyCallback κ)
  queueOk : Bool
  core : Sender (MyCallback κ)
deriving DecidableEq

/-- The callbacks of a call. -/
structure Callbacks (κ : Type) where
  handler : Option κ
  discarded : Option κ
  se : Option κ
deriving DecidableEq

/-- The calls. -/
inductive DBCall
  | Open
  | Prepare
  /-- `started` is what `StartJob` returns. -/
  | BeginTrans (started : Bool)
  /-- `ended` is what `EndJob` returns. -/
  | EndTrans (ended : Bool)
  | Close
deriving DecidableEq

/-- What has happened outside the deques. -/
structure Events (κ : Type) where
  answered : List (Answered κ) := []
  /-- The invocations of the other callbacks. -/
  invoked : List (ℕ × Notice κ) := []

def Events.append (e f : Events κ) : Events κ where
  answered := e.answered ++ f.answered
  invoked := e.invoked ++ f.invoked

namespace CAsyncDBHandler

variable (h : CAsyncDBHandler κ)

/-- The constructor. -/
def new : CAsyncDBHandler κ where
  m_kvCallback := []
  m_kvBatching := []
  deqResult := []
  queueOk := false
  core := {}

/-- The deque of the base handler that a call appends to and pops. -/
def queueOf (batching : Bool) : List (Entry κ) :=
  if batching then h.m_kvBatching else h.m_kvCallback

def setQueue (batching : Bool) (q : List (Entry κ)) : CAsyncDBHandler κ :=
  if batching then { h with m_kvBatching := q } else { h with m_kvCallback := q }

/-- `SendRequest(reqId, q, arh, discarded, se)` of the base handler. -/
def SendRequest (call : MyCallback κ) (arh discarded se : Option κ) (sent : Bool) :
    CAsyncDBHandler κ :=
  let rcb : CResultCb κ := ⟨arh, discarded, se⟩
  if rcb.isGiven then
    let batching := h.core.batch.isSome
    let q := h.queueOf batching ++ [⟨call.ReqId, rcb, call.ticket⟩]
    if sent then { h.setQueue batching q with core := h.core.accept call }
    else h.setQueue batching q.dropLast
  else if sent then { h with core := h.core.accept call }
  else h

/-- A call appends its entry. -/
def append (call : MyCallback κ) : CAsyncDBHandler κ :=
  { h with deqResult := h.deqResult ++ [call] }

/-- A call sends its request, and removes its entry when that fails. -/
def finish [DecidableEq κ] (call : MyCallback κ) (arh discarded se : Option κ) (sent : Bool) :
    CAsyncDBHandler κ :=
  let h := h.SendRequest call arh discarded se sent
  if sent then h else { h with deqResult := h.deqResult.erase call }

/-- `ClientQueue.StartJob`. -/
def StartJob (ok : Bool) : CAsyncDBHandler κ :=
  { h with core := if ok then h.core.startJob else h.core }

def EndJob (ok : Bool) : CAsyncDBHandler κ :=
  { h with core := if ok then h.core.endJob else h.core }

variable [DecidableEq κ]

/-- `Open(strConnection, handler, flags, discarded, se)`. -/
def Open (ticket : ℕ) (cbs : Callbacks κ) (sent : Bool) : CAsyncDBHandler κ :=
  let cb : MyCallback κ := ⟨idOpen, cbs.handler, ticket⟩
  (h.append cb).finish cb none cbs.discarded cbs.se sent

/-- `Prepare(sql, handler, lstParameterInfo, discarded, se)`. -/
def Prepare (ticket : ℕ) (cbs : Callbacks κ) (sent : Bool) : CAsyncDBHandler κ :=
  let cb : MyCallback κ := ⟨idPrepare, cbs.handler, ticket⟩
  (h.append cb).finish cb none cbs.discarded cbs.se sent

/-- `BeginTrans(isolation, handler, discarded, se)`, with a job of the client queue. -/
def BeginTrans (started : Bool) (ticket : ℕ) (cbs : Callbacks κ) (sent : Bool) : CAsyncDBHandler κ :=
  let cb : MyCallback κ := ⟨idBeginTrans, cbs.handler, ticket⟩
  let inJob := { (h.append cb).StartJob started with queueOk := started }
  inJob.finish cb none cbs.discarded cbs.se sent

/-- `EndTrans(plan, handler, discarded, se)`, which ends the job of `BeginTrans`. -/
def EndTrans (ended : Bool) (ticket : ℕ) (cbs : Callbacks κ) (sent : Bool) : CAsyncDBHandler κ :=
  let cb : MyCallback κ := ⟨idEndTrans, cbs.handler, ticket⟩
  let h := (h.append cb).finish cb none cbs.discarded cbs.se sent
  if sent && h.queueOk then { h.EndJob ended with queueOk := false } else h

/-- `Close(handler, discarded, se)`, which passes its handler on as `arh`. -/
def Close (ticket : ℕ) (cbs : Callbacks κ) (sent : Bool) : CAsyncDBHandler κ :=
  let cb : MyCallback κ := ⟨idClose, cbs.handler, ticket⟩
  (h.append cb).finish cb cbs.handler cbs.discarded cbs.se sent

def call (ticket : ℕ) (cbs : Callbacks κ) (sent : Bool) : DBCall → CAsyncDBHandler κ
  | .Open => h.Open ticket cbs sent
  | .Prepare => h.Prepare ticket cbs sent
  | .BeginTrans started => h.BeginTrans started ticket cbs sent
  | .EndTrans ended => h.EndTrans ended ticket cbs sent
  | .Close => h.Close ticket cbs sent

omit [DecidableEq κ] in
/-- `StartBatching`. -/
def StartBatching (ok : Bool) : CAsyncDBHandler κ :=
  { h with m_kvBatching := [], core := if ok then h.core.startBatch else h.core }

omit [DecidableEq κ] in
/-- `CommitBatching`. -/
def CommitBatching (r : CommitResult) : CAsyncDBHandler κ :=
  { h with
    m_kvCallback := h.m_kvCallback ++ h.m_kvBatching
    m_kvBatching := []
    core := r.apply h.core }

omit [DecidableEq κ] in
/-- `AbortBatching`. -/
def AbortBatching (ok : Bool) : CAsyncDBHandler κ × Events κ :=
  ({ h with m_kvBatching := [], core := if ok then h.core.dropBatch else h.core },
    { invoked := h.m_kvBatching.flatMap fun p ↦ invoke p (.givenUp true) })

omit [DecidableEq κ] in
/-- `_OnRR_`. -/
def OnRR (reqId : UInt16) (res : Int32) (errMsg : String) :
    CAsyncDBHandler κ × List (Invocation κ) :=
  let (rcb, rest) := takeFront Entry.reqId reqId h.m_kvCallback
  match rcb.bind fun kv ↦ kv.rcb.AsyncResultHandler with
  | some f => ({ h with m_kvCallback := rest }, [.AsyncResult f])
  | none =>
    let r := resultReturned reqId res errMsg h.deqResult
    ({ h with m_kvCallback := rest, deqResult := r.1 }, r.2)

omit [DecidableEq κ] in
/-- `_OnSE_`. -/
def OnSE (reqId : UInt16) : CAsyncDBHandler κ × List (ℕ × Notice κ) :=
  let (rcb, rest) := takeFront Entry.reqId reqId h.m_kvCallback
  ({ h with m_kvCallback := rest }, rcb.toList.flatMap fun kv ↦ invoke kv (.answered .exception))

omit [DecidableEq κ] in
/-- The first request on the wire, that of `call`, is answered. -/
def respond (frame : Frame) (call : MyCallback κ) : CAsyncDBHandler κ × Events κ :=
  let rest := { h with core := h.core.answered }
  match frame with
  | .result res errMsg =>
    let r := rest.OnRR call.ReqId res errMsg
    (r.1, { answered := [⟨call, frame, r.2⟩] })
  | .exception =>
    let r := rest.OnSE call.ReqId
    (r.1, { answered := [⟨call, frame, []⟩], invoked := r.2 })

end CAsyncDBHandler

/-! ### Several handlers -/

/-- The steps on one handler besides the calls. -/
inductive Op
  | startBatching (ok : Bool)
  | commitBatching (r : CommitResult)
  | abortBatching (ok : Bool)
  | respond (frame : Frame)
deriving DecidableEq

/-- What a step does; `none` when it is not enabled. -/
def CAsyncDBHandler.act (h : CAsyncDBHandler κ) : Op → Option (CAsyncDBHandler κ × Events κ)
  | .startBatching ok => some (h.StartBatching ok, {})
  | .commitBatching r => some (h.CommitBatching r, {})
  | .abortBatching ok => some (h.AbortBatching ok)
  | .respond frame => h.core.wire.head?.map (h.respond frame)

/-- The handlers, in the order they were constructed. -/
structure State (κ : Type) where
  handlers : List (CAsyncDBHandler κ)
  /-- The number of calls made so far. -/
  made : ℕ
  events : Events κ

inductive Action (κ : Type)
  | newHandler
  | call (i : ℕ) (c : DBCall) (cbs : Callbacks κ) (sent : Bool)
  | on (i : ℕ) (op : Op)
  /-- The core has merged the client queue of the `i`-th handler's socket into that of the `j`-th
  one's, and `_AppendTo_` does the same with the callbacks. -/
  | appendTo (i j : ℕ)
deriving DecidableEq

namespace State

/-- `_AppendTo_(to)` with `OnMergeTo`, which moves `_deqResult`. -/
def AppendTo (s : State κ) (i j : ℕ) (h other : CAsyncDBHandler κ) : State κ :=
  let merged := { other with
    deqResult := other.deqResult ++ h.deqResult
    m_kvCallback := other.m_kvCallback ++ h.m_kvCallback
    core := other.core.takeOver h.core.wire }
  let emptied := { h with
    deqResult := []
    m_kvCallback := []
    core := { h.core with wire := [] } }
  { s with handlers := (s.handlers.set j merged).set i emptied }

/-- One step; `none` when it is not enabled. -/
def step [DecidableEq κ] (s : State κ) : Action κ → Option (State κ)
  | .newHandler => some { s with handlers := s.handlers ++ [.new] }
  | .call i c cbs sent =>
    s.handlers[i]?.map fun h ↦
      { s with handlers := s.handlers.set i (h.call s.made cbs sent c), made := s.made + 1 }
  | .on i op =>
    s.handlers[i]?.bind fun h ↦ (h.act op).map fun r ↦
      { s with handlers := s.handlers.set i r.1, events := s.events.append r.2 }
  | .appendTo i j =>
    match s.handlers[i]?, s.handlers[j]? with
    | some h, some other => if i = j then none else some (s.AppendTo i j h other)
    | _, _ => none

/-- Before the first handler. -/
def start : State κ := ⟨[], 0, {}⟩

/-- **Results reach their own callback**, and what has ended leaves nothing behind. -/
structure OwnResults (s : State κ) : Prop where
  own : ∀ a ∈ s.events.answered, a.Own
  pending : ∀ h ∈ s.handlers, Pending h.deqResult h.core

end State

/-! ### The condition on the steps -/

namespace CAsyncDBHandler

variable (h : CAsyncDBHandler κ)

/-- The base handler has no entry with an `arh` in front that the result would take. -/
def PassesOn : Prop :=
  ∀ call ∈ h.core.wire.head?, ∀ kv ∈ h.m_kvCallback.head?,
    kv.reqId = call.ReqId → kv.rcb.AsyncResultHandler = none

/-- The conditions on the steps of one handler: no request ends without a result, and every result
goes on to `OnResultReturned`. -/
def Orderly : Op → Prop
  | .commitBatching r => r = .dropped → h.core.inBatch = []
  | .abortBatching ok => ok → h.core.inBatch = []
  | .respond frame => frame ≠ .exception ∧ h.PassesOn
  | .startBatching _ => True

/-- All requests are on the wire. -/
def Written : Prop := h.core.inJob = [] ∧ h.core.inBatch = []

end CAsyncDBHandler

/-- The conditions on the steps. A handler is merged into another one when it has no requests, or
when all requests of both are on the wire. -/
def State.Orderly (s : State κ) : Action κ → Prop
  | .on i op => ∀ h ∈ s.handlers[i]?, h.Orderly op
  | .appendTo i j => ∀ h ∈ s.handlers[i]?, ∀ other ∈ s.handlers[j]?,
    h.core.all = [] ∨ h.Written ∧ other.Written
  | _ => True

instance [DecidableEq κ] (h : CAsyncDBHandler κ) : Decidable h.PassesOn := by
  unfold CAsyncDBHandler.PassesOn
  infer_instance

instance [DecidableEq κ] (h : CAsyncDBHandler κ) : Decidable h.Written :=
  inferInstanceAs (Decidable (_ ∧ _))

instance [DecidableEq κ] (h : CAsyncDBHandler κ) (op : Op) : Decidable (h.Orderly op) := by
  cases op <;> unfold CAsyncDBHandler.Orderly <;> infer_instance

instance [DecidableEq κ] (s : State κ) (a : Action κ) : Decidable (s.Orderly a) := by
  cases a <;> unfold State.Orderly <;> infer_instance

/-! ### What one step keeps -/

/-- **What is known of a handler**: its entries are those of the requests with the core, in their
order. -/
structure CAsyncDBHandler.Lined (h : CAsyncDBHandler κ) (made : ℕ) : Prop where
  deqResult : h.deqResult = h.core.all
  fresh : ∀ cb ∈ h.deqResult, cb.ticket < made

variable {h h' : CAsyncDBHandler κ} {e : Events κ} {made : ℕ}

theorem CAsyncDBHandler.Lined.mono {made' : ℕ} (hl : h.Lined made) (hle : made ≤ made') :
    h.Lined made' :=
  ⟨hl.deqResult, fun cb hcb ↦ (hl.fresh cb hcb).trans_le hle⟩

theorem new_lined : (CAsyncDBHandler.new : CAsyncDBHandler κ).Lined made :=
  ⟨rfl, fun _ hcb ↦ absurd hcb List.not_mem_nil⟩

/-- The core changes, and keeps all requests. -/
theorem lined_of_eq (hl : h.Lined made) (hdeq : h'.deqResult = h.deqResult)
    (hall : h'.core.all = h.core.all) : h'.Lined made :=
  ⟨hdeq.trans (hl.deqResult.trans hall.symm), fun cb hcb ↦ hl.fresh cb (hdeq ▸ hcb)⟩

/-- The base handler sends a request, or not. -/
theorem sendRequest_spec (h : CAsyncDBHandler κ) (call : MyCallback κ)
    (arh discarded se : Option κ) (sent : Bool) :
    (h.SendRequest call arh discarded se sent).core = (if sent then h.core.accept call else h.core) ∧
      (h.SendRequest call arh discarded se sent).deqResult = h.deqResult := by
  rw [CAsyncDBHandler.SendRequest]
  split
  · generalize h.core.batch.isSome = batching
    cases sent <;> cases batching <;> exact ⟨rfl, rfl⟩
  · cases sent <;> exact ⟨rfl, rfl⟩

variable [DecidableEq κ]

/-- **A call** that has appended its entry adds its request, or removes the entry. -/
theorem finish_lined {call : MyCallback κ} (hdeq : h.deqResult = h.core.all ++ [call])
    (hfresh : ∀ cb ∈ h.core.all, cb.ticket < call.ticket) (arh discarded se : Option κ)
    (sent : Bool) : (h.finish call arh discarded se sent).Lined (call.ticket + 1) := by
  have hnew : call ∉ h.core.all := fun hin ↦ absurd (hfresh call hin) (Nat.lt_irrefl _)
  obtain ⟨hcore, hsame⟩ := sendRequest_spec h call arh discarded se sent
  rw [CAsyncDBHandler.finish]
  cases sent with
  | true =>
    refine ⟨?_, fun cb hcb ↦ ?_⟩
    · refine (hsame.trans hdeq).trans (Eq.trans ?_ (congrArg Sender.all hcore).symm)
      rw [if_pos rfl, Sender.all_accept]
    · have hin : cb ∈ h.core.all ++ [call] := (hsame.trans hdeq) ▸ hcb
      rcases List.mem_append.1 hin with hin | hin
      · exact (hfresh cb hin).trans (Nat.lt_succ_self _)
      · obtain rfl := List.mem_singleton.1 hin
        exact Nat.lt_succ_self _
  | false =>
    have herase : (h.SendRequest call arh discarded se false).deqResult.erase call = h.core.all := by
      rw [hsame, hdeq]
      exact erase_added hnew
    refine ⟨herase.trans (congrArg Sender.all hcore).symm, fun cb hcb ↦ ?_⟩
    exact (hfresh cb (herase ▸ hcb)).trans (Nat.lt_succ_self _)

/-- A call that does nothing in between. -/
theorem request_lined (hl : h.Lined made) (reqId : UInt16) (handler arh discarded se : Option κ)
    (sent : Bool) :
    ((h.append ⟨reqId, handler, made⟩).finish ⟨reqId, handler, made⟩ arh discarded se sent).Lined
      (made + 1) :=
  finish_lined (h := h.append ⟨reqId, handler, made⟩) (congrArg (· ++ _) hl.deqResult)
    (fun cb hcb ↦ hl.fresh cb (hl.deqResult ▸ hcb)) arh discarded se sent

omit [DecidableEq κ] in
theorem endJob_lined (hl : h.Lined made) (ok : Bool) : (h.EndJob ok).Lined made := by
  cases ok with
  | true => exact lined_of_eq hl rfl Sender.all_endJob
  | false => exact lined_of_eq hl rfl rfl

/-- **The five calls.** -/
theorem call_lined (hl : h.Lined made) (c : DBCall) (cbs : Callbacks κ) (sent : Bool) :
    (h.call made cbs sent c).Lined (made + 1) := by
  cases c with
  | Open => exact request_lined hl idOpen cbs.handler none cbs.discarded cbs.se sent
  | Prepare => exact request_lined hl idPrepare cbs.handler none cbs.discarded cbs.se sent
  | BeginTrans started =>
    let cb : MyCallback κ := ⟨idBeginTrans, cbs.handler, made⟩
    have hall : ((h.append cb).StartJob started).core.all = h.core.all := by
      cases started <;> rfl
    refine finish_lined (h := { (h.append cb).StartJob started with queueOk := started }) ?_ ?_ none
      cbs.discarded cbs.se sent
    · exact (congrArg (· ++ [cb]) hl.deqResult).trans (congrArg (· ++ [cb]) hall.symm)
    · exact fun cb' hcb' ↦ hl.fresh cb' (hl.deqResult ▸ (hall ▸ hcb' : cb' ∈ h.core.all))
  | EndTrans ended =>
    have hrequest := request_lined hl idEndTrans cbs.handler none cbs.discarded cbs.se sent
    rw [CAsyncDBHandler.call, CAsyncDBHandler.EndTrans]
    split
    · have hend := endJob_lined hrequest ended
      exact lined_of_eq hend rfl rfl
    · exact hrequest
  | Close => exact request_lined hl idClose cbs.handler cbs.handler cbs.discarded cbs.se sent

omit [DecidableEq κ] in
/-- The base handler passes a result on. -/
theorem onRR_eq {reqId : UInt16} (hpasses : ∀ kv ∈ h.m_kvCallback.head?, kv.reqId = reqId →
    kv.rcb.AsyncResultHandler = none) (res : Int32) (errMsg : String) :
    h.OnRR reqId res errMsg =
      ({ h with
          m_kvCallback := (takeFront Entry.reqId reqId h.m_kvCallback).2
          deqResult := (resultReturned reqId res errMsg h.deqResult).1 },
        (resultReturned reqId res errMsg h.deqResult).2) := by
  have hnone : ((takeFront Entry.reqId reqId h.m_kvCallback).1.bind
      fun kv ↦ kv.rcb.AsyncResultHandler) = none := by
    rcases hq : h.m_kvCallback with - | ⟨kv, rest⟩
    · rfl
    · rw [takeFront]
      split
      · next hid => exact hpasses kv (by rw [hq]; rfl) hid
      · rfl
  rw [CAsyncDBHandler.OnRR]
  simp only [hnone]

omit [DecidableEq κ] in
/-- **A result** invokes the callback of its own call. -/
theorem respond_lined (hl : h.Lined made) {call : MyCallback κ}
    (hcall : h.core.wire.head? = some call) (hpasses : h.PassesOn) (res : Int32) (errMsg : String) :
    (h.respond (.result res errMsg) call).1.Lined made ∧
      ∀ a ∈ (h.respond (.result res errMsg) call).2.answered, a.Own := by
  have hfront := resultReturned_front hl.deqResult hcall res errMsg
  simp only [CAsyncDBHandler.respond]
  rw [onRR_eq (h := { h with core := h.core.answered }) (hpasses call hcall), hfront]
  refine ⟨⟨rfl, fun cb hcb ↦ hl.fresh cb ?_⟩, fun a ha ↦ ?_⟩
  · rw [hl.deqResult]
    exact Sender.answered_sublist.subset hcb
  · obtain rfl := List.mem_singleton.1 ha
    rfl

omit [DecidableEq κ] in
/-- **One step of a handler.** -/
theorem act_lined (hl : h.Lined made) (op : Op) (hC : h.Orderly op)
    (hact : h.act op = some (h', e)) : h'.Lined made ∧ ∀ a ∈ e.answered, a.Own := by
  have hquiet : ∀ a ∈ (Events.answered {} : List (Answered κ)), a.Own :=
    fun _ ha ↦ absurd ha List.not_mem_nil
  cases op with
  | startBatching ok =>
    obtain ⟨rfl, rfl⟩ := Prod.mk.inj (Option.some.inj hact)
    cases ok <;> exact ⟨lined_of_eq hl rfl rfl, hquiet⟩
  | commitBatching r =>
    obtain ⟨rfl, rfl⟩ := Prod.mk.inj (Option.some.inj hact)
    exact ⟨lined_of_eq hl rfl (all_apply hC), hquiet⟩
  | abortBatching ok =>
    obtain ⟨rfl, rfl⟩ := Prod.mk.inj (Option.some.inj hact)
    cases ok with
    | true => exact ⟨lined_of_eq hl rfl (all_apply (r := .dropped) fun _ ↦ hC rfl), hquiet⟩
    | false => exact ⟨lined_of_eq hl rfl rfl, hquiet⟩
  | respond frame =>
    obtain ⟨call, hcall, hrespond⟩ := Option.map_eq_some_iff.1 hact
    cases frame with
    | result res errMsg =>
      have hresult := respond_lined hl hcall hC.2 res errMsg
      rwa [hrespond] at hresult
    | exception => exact absurd rfl hC.1

/-! ### Runs -/

variable {s t : State κ}

/-- **The invariant.** -/
structure Sound (s : State κ) : Prop where
  lined : ∀ h ∈ s.handlers, h.Lined s.made
  own : ∀ a ∈ s.events.answered, a.Own

omit [DecidableEq κ] in
theorem start_sound : Sound (State.start : State κ) :=
  ⟨fun _ hh ↦ absurd hh List.not_mem_nil, fun _ ha ↦ absurd ha List.not_mem_nil⟩

omit [DecidableEq κ] in
/-- **A handler is merged into another one.** The entries move with the requests. -/
theorem appendTo_sound (hs : Sound s) {i j : ℕ} {other : CAsyncDBHandler κ}
    (hi : s.handlers[i]? = some h) (hj : s.handlers[j]? = some other)
    (hC : h.core.all = [] ∨ h.Written ∧ other.Written) : Sound (s.AppendTo i j h other) := by
  have hl := hs.lined h (List.mem_of_getElem? hi)
  have hlo := hs.lined other (List.mem_of_getElem? hj)
  have hunwritten : h.core.inJob = [] ∧ h.core.inBatch = [] := by
    refine hC.elim (fun hnil ↦ ?_) fun hboth ↦ hboth.1
    exact ⟨(List.append_eq_nil_iff.1 (List.append_eq_nil_iff.1 hnil).1).2,
      (List.append_eq_nil_iff.1 hnil).2⟩
  have hall : h.core.all = h.core.wire := by
    rw [Sender.all, hunwritten.1, hunwritten.2, List.append_nil, List.append_nil]
  have hmerged : (other.core.takeOver h.core.wire).all = other.core.all ++ h.core.all := by
    rw [hall]
    rcases hC with hnil | ⟨-, hjob, hbatch⟩
    · rw [← hall, hnil, Sender.takeOver, List.append_nil, List.append_nil]
    · have hjob' : (other.core.takeOver h.core.wire).inJob = [] := hjob
      have hbatch' : (other.core.takeOver h.core.wire).inBatch = [] := hbatch
      rw [Sender.all, hjob', hbatch', Sender.all, hjob, hbatch]
      simp [Sender.takeOver]
  have hleft : ({ h.core with wire := [] } : Sender (MyCallback κ)).all = [] := by
    show [] ++ h.core.inJob ++ h.core.inBatch = []
    rw [hunwritten.1, hunwritten.2]
    rfl
  refine ⟨fun g hg ↦ ?_, hs.own⟩
  rcases List.mem_or_eq_of_mem_set hg with hg | rfl
  · rcases List.mem_or_eq_of_mem_set hg with hg | rfl
    · exact hs.lined g hg
    · refine ⟨?_, fun cb hcb ↦ (List.mem_append.1 hcb).elim (hlo.fresh cb) (hl.fresh cb)⟩
      rw [hmerged, hl.deqResult, hlo.deqResult]
  · exact ⟨hleft.symm, fun _ hcb ↦ absurd hcb List.not_mem_nil⟩

/-- **One step.** -/
theorem step_sound (hs : Sound s) (a : Action κ) (hC : s.Orderly a) (ht : s.step a = some t) :
    Sound t := by
  cases a with
  | newHandler =>
    obtain rfl := Option.some.inj ht
    refine ⟨fun g hg ↦ ?_, hs.own⟩
    rcases List.mem_append.1 hg with hg | hg
    · exact hs.lined g hg
    · obtain rfl := List.mem_singleton.1 hg
      exact new_lined
  | call i c cbs sent =>
    obtain ⟨h, hi, rfl⟩ := Option.map_eq_some_iff.1 ht
    refine ⟨fun g hg ↦ ?_, hs.own⟩
    rcases List.mem_or_eq_of_mem_set hg with hg | rfl
    · exact (hs.lined g hg).mono (Nat.le_succ _)
    · exact call_lined (hs.lined h (List.mem_of_getElem? hi)) c cbs sent
  | on i op =>
    obtain ⟨h, hi, ht⟩ := Option.bind_eq_some_iff.1 ht
    obtain ⟨⟨h', e⟩, hact, rfl⟩ := Option.map_eq_some_iff.1 ht
    obtain ⟨hlined, hown⟩ := act_lined (hs.lined h (List.mem_of_getElem? hi)) op (hC h hi) hact
    refine ⟨fun g hg ↦ ?_, fun a ha ↦ (List.mem_append.1 ha).elim (hs.own a) (hown a)⟩
    rcases List.mem_or_eq_of_mem_set hg with hg | rfl
    · exact hs.lined g hg
    · exact hlined
  | appendTo i j =>
    rw [State.step] at ht
    split at ht
    · next h other hi hj =>
      obtain ⟨-, ht⟩ := Option.ite_none_left_eq_some.1 ht
      obtain rfl := Option.some.inj ht
      exact appendTo_sound hs hi hj (hC h hi other hj)
    · exact nomatch ht

/-- **Results reach their own callback**: in every run in which every request ends with a result
that goes on to `OnResultReturned`. -/
theorem pythonResults_own (as : List (Action κ))
    (hin : Within State.step State.Orderly State.start as)
    (hrun : run State.step State.start as = some t) : t.OwnResults := by
  have hs := invariant_of_within (I := Sound) (fun _ a _ hs hC hstep ↦ step_sound hs a hC hstep) as
    start_sound hin hrun
  exact ⟨hs.own, fun h hh ↦ pending_of_eq (hs.lined h hh).deqResult⟩

/-- A batch of two calls, the second of which is refused; a call answered after the merge; and a
`Close` without a handler. -/
def someActions : List (Action ℕ) :=
  [.newHandler, .newHandler, .on 0 (.startBatching true),
    .call 0 .Open ⟨some 1, some 2, none⟩ true, .call 0 .Prepare ⟨some 3, none, some 4⟩ false,
    .on 0 (.commitBatching .written), .on 0 (.respond (.result 0 "db")),
    .call 0 (.BeginTrans false) ⟨some 5, none, none⟩ true, .appendTo 0 1,
    .on 1 (.respond (.result 7 "locked")), .call 1 .Close ⟨none, none, some 6⟩ true,
    .on 1 (.respond (.result 0 ""))]

theorem pythonResults_own_someActions :
    ∃ t : State ℕ, run State.step State.start someActions = some t ∧ t.OwnResults ∧
      t.events.answered.flatMap Answered.invoked = [.DResult 0 1 0 "", .DResult 2 5 7 "locked"] :=
  ⟨_, rfl, pythonResults_own someActions (by decide) rfl, rfl⟩

/-- **The handler of `Close` is given the `CAsyncResult`.** -/
theorem close_passes_handler :
    ¬ ∀ (as : List (Action ℕ)) (t : State ℕ), run State.step State.start as = some t →
      t.OwnResults := by
  intro hall
  have hown := (hall [.newHandler, .call 0 .Close ⟨some 1, none, none⟩ true,
    .on 0 (.respond (.result 0 ""))] _ rfl).own
    ⟨⟨idClose, some 1, 0⟩, .result 0 "", [.AsyncResult 1]⟩ (by decide)
  exact absurd hown (by decide)

end SocketPro.Python.DBHandler
