import SocketPro.Foundation.Run
import SocketPro.Handler.Results

/-!
# Results of the Java `CAsyncDBHandler`

Several database handlers on sockets that answer in order, in histories where each call runs to its
end. A call adds an entry to `m_deqResult` and sends its request with `null` as
`AsyncResultHandler`; the base handler makes an entry of its own when one of the other two callbacks
was given.

The server answers the wire in order, with a result or an exception. `onRR` and `OnSE` take the
entry of the base handler; a result goes on to `OnResultReturned`, which takes the entry of
`m_deqResult`, and an exception does not. No handler of the event `ResultReturned` is set.

`javaResults_own`: a run in which no request ends without a result keeps `m_deqResult` equal to the
list of the requests that are with the core.
-/

namespace SocketPro.Java.DBHandler

open Machine Handler Transit

variable {κ : Type}

/-! ### One handler -/

/-- A handler with its socket. -/
structure CAsyncDBHandler (κ : Type) where
  m_kvCallback : List (Entry κ)
  /-- `m_nQIndex` of the client queue. -/
  m_nQIndex : ℕ
  m_deqResult : List (MyCallback κ)
  m_queueOk : Bool
  core : Sender (MyCallback κ)
deriving DecidableEq

/-- The callbacks of a call. -/
structure Callbacks (κ : Type) where
  handler : Option κ
  discarded : Option κ
  se : Option κ
deriving DecidableEq

/-- The calls. -/
inductive DBCall
  | Open
  | Prepare
  /-- `started` is what `StartJob` returns. -/
  | BeginTrans (started : Bool)
  /-- `ended` is what `EndJob` returns. -/
  | EndTrans (ended : Bool)
  | CloseDb
deriving DecidableEq

/-- What has happened outside the queues. -/
structure Events (κ : Type) where
  answered : List (Answered κ) := []
  /-- The invocations of the other callbacks. -/
  invoked : List (ℕ × Notice κ) := []

def Events.append (e f : Events κ) : Events κ where
  answered := e.answered ++ f.answered
  invoked := e.invoked ++ f.invoked

namespace CAsyncDBHandler

variable (h : CAsyncDBHandler κ)

/-- The constructor. -/
def new : CAsyncDBHandler κ where
  m_kvCallback := []
  m_nQIndex := 0
  m_deqResult := []
  m_queueOk := false
  core := {}

/-- `SendRequest(reqId, data, null, discarded, se)` of the base handler. -/
def SendRequest (call : MyCallback κ) (discarded se : Option κ) (sent : Bool) :
    CAsyncDBHandler κ :=
  let rcb : CResultCb κ := ⟨none, discarded, se⟩
  if rcb.isGiven then
    if sent then
      { h with
        m_kvCallback := h.m_kvCallback ++ [⟨call.ReqId, rcb, call.ticket⟩]
        core := h.core.accept call }
    else { h with m_kvCallback := [] }
  else if sent then { h with core := h.core.accept call }
  else h

/-- The body of the five calls. -/
def request [DecidableEq κ] (call : MyCallback κ) (discarded se : Option κ) (sent : Bool) :
    CAsyncDBHandler κ :=
  let added := { h with m_deqResult := h.m_deqResult ++ [call] }
  let h := added.SendRequest call discarded se sent
  if sent then h else { h with m_deqResult := h.m_deqResult.erase call }

/-- `CClientQueueImpl.StartJob`. -/
def StartJob (ok : Bool) : CAsyncDBHandler κ :=
  { h with
    m_nQIndex := h.m_kvCallback.length
    core := if ok then h.core.startJob else h.core }

def EndJob (ok : Bool) : CAsyncDBHandler κ :=
  { h with core := if ok then h.core.endJob else h.core }

variable [DecidableEq κ]

/-- `Open(strConnection, handler, flags, discarded, se)`. -/
def Open (ticket : ℕ) (cbs : Callbacks κ) (sent : Bool) : CAsyncDBHandler κ :=
  h.request ⟨idOpen, cbs.handler, ticket⟩ cbs.discarded cbs.se sent

/-- `Prepare(sql, handler, vParameterInfo, discarded, se)`. -/
def Prepare (ticket : ℕ) (cbs : Callbacks κ) (sent : Bool) : CAsyncDBHandler κ :=
  h.request ⟨idPrepare, cbs.handler, ticket⟩ cbs.discarded cbs.se sent

/-- `BeginTrans(isolation, handler, discarded, se)`, with a job of the client queue. -/
def BeginTrans (started : Bool) (ticket : ℕ) (cbs : Callbacks κ) (sent : Bool) : CAsyncDBHandler κ :=
  let inJob := { h.StartJob started with m_queueOk := started }
  inJob.request ⟨idBeginTrans, cbs.handler, ticket⟩ cbs.discarded cbs.se sent

/-- `EndTrans(plan, handler, discarded, se)`, which ends the job of `BeginTrans`. -/
def EndTrans (ended : Bool) (ticket : ℕ) (cbs : Callbacks κ) (sent : Bool) : CAsyncDBHandler κ :=
  let h := h.request ⟨idEndTrans, cbs.handler, ticket⟩ cbs.discarded cbs.se sent
  if sent && h.m_queueOk then { h.EndJob ended with m_queueOk := false } else h

/-- `CloseDb(handler, discarded, se)`. -/
def CloseDb (ticket : ℕ) (cbs : Callbacks κ) (sent : Bool) : CAsyncDBHandler κ :=
  h.request ⟨idClose, cbs.handler, ticket⟩ cbs.discarded cbs.se sent

def call (ticket : ℕ) (cbs : Callbacks κ) (sent : Bool) : DBCall → CAsyncDBHandler κ
  | .Open => h.Open ticket cbs sent
  | .Prepare => h.Prepare ticket cbs sent
  | .BeginTrans started => h.BeginTrans started ticket cbs sent
  | .EndTrans ended => h.EndTrans ended ticket cbs sent
  | .CloseDb => h.CloseDb ticket cbs sent

omit [DecidableEq κ] in
/-- `AbortJob`: `EraseBack` of the base handler, the last entry first. -/
def AbortJob (ok : Bool) : CAsyncDBHandler κ × Events κ :=
  let total : ℤ := h.m_kvCallback.length
  let kept := (total - min (total - h.m_nQIndex) total).toNat
  if ok then
    ({ h with m_kvCallback := h.m_kvCallback.take kept, core := h.core.dropJob },
      { invoked := (h.m_kvCallback.drop kept).reverse.flatMap fun p ↦ invoke p (.givenUp true) })
  else (h, {})

omit [DecidableEq κ] in
/-- `onRR`: what the base handler does with the result. -/
def onRR (reqId : UInt16) (res : Int32) (errMsg : String) :
    CAsyncDBHandler κ × List (Invocation κ) :=
  let (p, rest) := takeFront Entry.reqId reqId h.m_kvCallback
  match p.bind fun kv ↦ kv.rcb.AsyncResultHandler with
  | some f => ({ h with m_kvCallback := rest }, [.AsyncResult f])
  | none =>
    let r := resultReturned reqId res errMsg h.m_deqResult
    ({ h with m_kvCallback := rest, m_deqResult := r.1 }, r.2)

omit [DecidableEq κ] in
/-- `OnSE`. -/
def OnSE (reqId : UInt16) : CAsyncDBHandler κ × List (ℕ × Notice κ) :=
  let (p, rest) := takeFront Entry.reqId reqId h.m_kvCallback
  ({ h with m_kvCallback := rest }, p.toList.flatMap fun kv ↦ invoke kv (.answered .exception))

omit [DecidableEq κ] in
/-- The first request on the wire, that of `call`, is answered. -/
def respond (frame : Frame) (call : MyCallback κ) : CAsyncDBHandler κ × Events κ :=
  let rest := { h with core := h.core.answered }
  match frame with
  | .result res errMsg =>
    let r := rest.onRR call.ReqId res errMsg
    (r.1, { answered := [⟨call, frame, r.2⟩] })
  | .exception =>
    let r := rest.OnSE call.ReqId
    (r.1, { answered := [⟨call, frame, []⟩], invoked := r.2 })

end CAsyncDBHandler

/-! ### Several handlers -/

/-- The steps on one handler besides the calls. `StartBatching`, `CommitBatching` and
`AbortBatching` of the base handler find nothing in its batching queue. -/
inductive Op
  | startBatching (ok : Bool)
  | commitBatching (r : CommitResult)
  | abortBatching (ok : Bool)
  | abortJob (ok : Bool)
  | respond (frame : Frame)
deriving DecidableEq

/-- What a step does; `none` when it is not enabled. -/
def CAsyncDBHandler.act (h : CAsyncDBHandler κ) : Op → Option (CAsyncDBHandler κ × Events κ)
  | .startBatching ok => some ({ h with core := if ok then h.core.startBatch else h.core }, {})
  | .commitBatching r => some ({ h with core := r.apply h.core }, {})
  | .abortBatching ok => some ({ h with core := if ok then h.core.dropBatch else h.core }, {})
  | .abortJob ok => some (h.AbortJob ok)
  | .respond frame => h.core.wire.head?.map (h.respond frame)

/-- The handlers, in the order they were constructed. -/
structure State (κ : Type) where
  handlers : List (CAsyncDBHandler κ)
  /-- The number of calls made so far. -/
  made : ℕ
  events : Events κ

inductive Action (κ : Type)
  | newHandler
  | call (i : ℕ) (c : DBCall) (cbs : Callbacks κ) (sent : Bool)
  | on (i : ℕ) (op : Op)
  /-- The core has merged the client queue of the `i`-th handler's socket into that of the `j`-th
  one's, and `AppendTo` does the same with the callbacks. -/
  | appendTo (i j : ℕ)
deriving DecidableEq

namespace State

/-- `AppendTo(to)` with `OnMergeTo`, which copies `m_deqResult`. -/
def AppendTo (s : State κ) (i j : ℕ) (h other : CAsyncDBHandler κ) : State κ :=
  let merged := { other with
    m_deqResult := other.m_deqResult ++ h.m_deqResult
    m_kvCallback := other.m_kvCallback ++ h.m_kvCallback
    core := other.core.takeOver h.core.wire }
  let emptied := { h with m_kvCallback := [], core := { h.core with wire := [] } }
  { s with handlers := (s.handlers.set j merged).set i emptied }

/-- One step; `none` when it is not enabled. -/
def step [DecidableEq κ] (s : State κ) : Action κ → Option (State κ)
  | .newHandler => some { s with handlers := s.handlers ++ [.new] }
  | .call i c cbs sent =>
    s.handlers[i]?.map fun h ↦
      { s with handlers := s.handlers.set i (h.call s.made cbs sent c), made := s.made + 1 }
  | .on i op =>
    s.handlers[i]?.bind fun h ↦ (h.act op).map fun r ↦
      { s with handlers := s.handlers.set i r.1, events := s.events.append r.2 }
  | .appendTo i j =>
    match s.handlers[i]?, s.handlers[j]? with
    | some h, some other => if i = j then none else some (s.AppendTo i j h other)
    | _, _ => none

/-- Before the first handler. -/
def start : State κ := ⟨[], 0, {}⟩

/-- **Results reach their own callback**, and what has ended leaves nothing behind. -/
structure OwnResults (s : State κ) : Prop where
  own : ∀ a ∈ s.events.answered, a.Own
  pending : ∀ h ∈ s.handlers, Pending h.m_deqResult h.core

end State

/-- The conditions on the steps of one handler: no request ends without a result. -/
def CAsyncDBHandler.Orderly (h : CAsyncDBHandler κ) : Op → Prop
  | .commitBatching r => r = .dropped → h.core.inBatch = []
  | .abortBatching ok => ok → h.core.inBatch = []
  | .abortJob ok => ok → h.core.inJob = []
  | .respond frame => frame ≠ .exception
  | .startBatching _ => True

/-- The conditions on the steps. Only a handler without entries is merged into another one. -/
def State.Orderly (s : State κ) : Action κ → Prop
  | .on i op => ∀ h ∈ s.handlers[i]?, h.Orderly op
  | .appendTo i _ => ∀ h ∈ s.handlers[i]?, h.m_deqResult = []
  | _ => True

instance [DecidableEq κ] (h : CAsyncDBHandler κ) (op : Op) : Decidable (h.Orderly op) := by
  cases op <;> unfold CAsyncDBHandler.Orderly <;> infer_instance

instance [DecidableEq κ] (s : State κ) (a : Action κ) : Decidable (s.Orderly a) := by
  cases a <;> unfold State.Orderly <;> infer_instance

/-! ### What one step keeps -/

/-- **What is known of a handler**: its entries are those of the requests with the core, in their
order, and no entry of the base handler takes a result. -/
structure CAsyncDBHandler.Lined (h : CAsyncDBHandler κ) (made : ℕ) : Prop where
  deqResult : h.m_deqResult = h.core.all
  passes : ∀ kv ∈ h.m_kvCallback, kv.rcb.AsyncResultHandler = none
  fresh : ∀ cb ∈ h.m_deqResult, cb.ticket < made

variable {h h' : CAsyncDBHandler κ} {e : Events κ} {made : ℕ}

theorem CAsyncDBHandler.Lined.mono {made' : ℕ} (hl : h.Lined made) (hle : made ≤ made') :
    h.Lined made' :=
  ⟨hl.deqResult, hl.passes, fun cb hcb ↦ (hl.fresh cb hcb).trans_le hle⟩

theorem new_lined : (CAsyncDBHandler.new : CAsyncDBHandler κ).Lined made :=
  ⟨rfl, fun _ hkv ↦ absurd hkv List.not_mem_nil, fun _ hcb ↦ absurd hcb List.not_mem_nil⟩

/-- The base handler sends a request, or not; its new entry takes no result. -/
theorem sendRequest_spec (hpasses : ∀ kv ∈ h.m_kvCallback, kv.rcb.AsyncResultHandler = none)
    (call : MyCallback κ) (discarded se : Option κ) (sent : Bool) :
    (h.SendRequest call discarded se sent).core =
        (if sent then h.core.accept call else h.core) ∧
      (h.SendRequest call discarded se sent).m_deqResult = h.m_deqResult ∧
      (h.SendRequest call discarded se sent).m_queueOk = h.m_queueOk ∧
      ∀ kv ∈ (h.SendRequest call discarded se sent).m_kvCallback,
        kv.rcb.AsyncResultHandler = none := by
  rw [CAsyncDBHandler.SendRequest]
  split
  · cases sent with
    | true =>
      refine ⟨rfl, rfl, rfl, fun kv hkv ↦ ?_⟩
      rcases List.mem_append.1 hkv with hkv | hkv
      · exact hpasses kv hkv
      · obtain rfl := List.mem_singleton.1 hkv
        rfl
    | false => exact ⟨rfl, rfl, rfl, fun _ hkv ↦ absurd hkv List.not_mem_nil⟩
  · cases sent <;> exact ⟨rfl, rfl, rfl, hpasses⟩

variable [DecidableEq κ]

/-- **A call** adds its entry and its request, or neither. -/
theorem request_lined (hl : h.Lined made) (reqId : UInt16) (handler discarded se : Option κ)
    (sent : Bool) : (h.request ⟨reqId, handler, made⟩ discarded se sent).Lined (made + 1) := by
  let call : MyCallback κ := ⟨reqId, handler, made⟩
  have hnew : call ∉ h.m_deqResult := fun hin ↦ absurd (hl.fresh call hin) (Nat.lt_irrefl _)
  obtain ⟨hcore, hdeq, -, hpasses⟩ := sendRequest_spec
    (h := { h with m_deqResult := h.m_deqResult ++ [call] }) hl.passes call discarded se sent
  rw [CAsyncDBHandler.request]
  cases sent with
  | true =>
    refine ⟨?_, hpasses, fun cb hcb ↦ ?_⟩
    · refine hdeq.trans (Eq.trans ?_ (congrArg Sender.all hcore).symm)
      rw [if_pos rfl, Sender.all_accept, ← hl.deqResult]
    · rcases List.mem_append.1 (hdeq ▸ hcb) with hcb | hcb
      · exact (hl.fresh cb hcb).trans (Nat.lt_succ_self _)
      · obtain rfl := List.mem_singleton.1 hcb
        exact Nat.lt_succ_self _
  | false =>
    have herase : (h.m_deqResult ++ [call]).erase call = h.m_deqResult := erase_added hnew
    refine ⟨?_, hpasses, fun cb hcb ↦ ?_⟩
    · refine ((congrArg (List.erase · call) hdeq).trans herase).trans ?_
      exact hl.deqResult.trans (congrArg Sender.all hcore).symm
    · have hin : cb ∈ h.m_deqResult :=
        ((congrArg (List.erase · call) hdeq).trans herase) ▸ hcb
      exact (hl.fresh cb hin).trans (Nat.lt_succ_self _)

omit [DecidableEq κ] in
theorem startJob_lined (hl : h.Lined made) (ok : Bool) : (h.StartJob ok).Lined made := by
  cases ok <;> exact ⟨hl.deqResult, hl.passes, hl.fresh⟩

omit [DecidableEq κ] in
theorem endJob_lined (hl : h.Lined made) (ok : Bool) : (h.EndJob ok).Lined made := by
  cases ok with
  | true => exact ⟨hl.deqResult.trans Sender.all_endJob.symm, hl.passes, hl.fresh⟩
  | false => exact ⟨hl.deqResult, hl.passes, hl.fresh⟩

/-- **The five calls.** -/
theorem call_lined (hl : h.Lined made) (c : DBCall) (cbs : Callbacks κ) (sent : Bool) :
    (h.call made cbs sent c).Lined (made + 1) := by
  cases c with
  | Open => exact request_lined hl idOpen cbs.handler cbs.discarded cbs.se sent
  | Prepare => exact request_lined hl idPrepare cbs.handler cbs.discarded cbs.se sent
  | BeginTrans started =>
    have hjob := startJob_lined hl started
    exact request_lined (h := { h.StartJob started with m_queueOk := started })
      ⟨hjob.deqResult, hjob.passes, hjob.fresh⟩ idBeginTrans cbs.handler cbs.discarded cbs.se sent
  | EndTrans ended =>
    have hrequest := request_lined hl idEndTrans cbs.handler cbs.discarded cbs.se sent
    rw [CAsyncDBHandler.call, CAsyncDBHandler.EndTrans]
    split
    · have hend := endJob_lined hrequest ended
      exact ⟨hend.deqResult, hend.passes, hend.fresh⟩
    · exact hrequest
  | CloseDb => exact request_lined hl idClose cbs.handler cbs.discarded cbs.se sent

omit [DecidableEq κ] in
/-- The core changes, and keeps all requests. -/
theorem core_lined (hl : h.Lined made) {core : Sender (MyCallback κ)}
    (hall : core.all = h.core.all) : { h with core := core }.Lined made :=
  ⟨hl.deqResult.trans hall.symm, hl.passes, hl.fresh⟩

omit [DecidableEq κ] in
/-- The base handler passes a result on. -/
theorem onRR_eq (hpasses : ∀ kv ∈ h.m_kvCallback, kv.rcb.AsyncResultHandler = none)
    (reqId : UInt16) (res : Int32) (errMsg : String) :
    h.onRR reqId res errMsg =
      ({ h with
          m_kvCallback := (takeFront Entry.reqId reqId h.m_kvCallback).2
          m_deqResult := (resultReturned reqId res errMsg h.m_deqResult).1 },
        (resultReturned reqId res errMsg h.m_deqResult).2) := by
  have hnone : ((takeFront Entry.reqId reqId h.m_kvCallback).1.bind
      fun kv ↦ kv.rcb.AsyncResultHandler) = none := by
    rcases hq : h.m_kvCallback with - | ⟨kv, rest⟩
    · rfl
    · rw [takeFront]
      split
      · exact hpasses kv (hq ▸ List.mem_cons_self)
      · rfl
  rw [CAsyncDBHandler.onRR]
  simp only [hnone]

omit [DecidableEq κ] in
/-- **A result** invokes the callback of its own call. -/
theorem respond_lined (hl : h.Lined made) {call : MyCallback κ}
    (hcall : h.core.wire.head? = some call) (res : Int32) (errMsg : String) :
    (h.respond (.result res errMsg) call).1.Lined made ∧
      ∀ a ∈ (h.respond (.result res errMsg) call).2.answered, a.Own := by
  have hfront := resultReturned_front hl.deqResult hcall res errMsg
  simp only [CAsyncDBHandler.respond]
  rw [onRR_eq (h := { h with core := h.core.answered }) hl.passes, hfront]
  refine ⟨⟨rfl, fun kv hkv ↦ hl.passes kv ?_, fun cb hcb ↦ hl.fresh cb ?_⟩, fun a ha ↦ ?_⟩
  · rcases hq : h.m_kvCallback with - | ⟨first, rest⟩
    · simp [hq, takeFront] at hkv
    · simp only [hq, takeFront] at hkv
      split at hkv
      · exact List.mem_cons_of_mem _ hkv
      · exact hkv
  · rw [hl.deqResult]
    exact Sender.answered_sublist.subset hcb
  · obtain rfl := List.mem_singleton.1 ha
    rfl

omit [DecidableEq κ] in
/-- **One step of a handler.** -/
theorem act_lined (hl : h.Lined made) (op : Op) (hC : h.Orderly op)
    (hact : h.act op = some (h', e)) : h'.Lined made ∧ ∀ a ∈ e.answered, a.Own := by
  have hquiet : ∀ a ∈ (Events.answered {} : List (Answered κ)), a.Own :=
    fun _ ha ↦ absurd ha List.not_mem_nil
  cases op with
  | startBatching ok =>
    obtain ⟨rfl, rfl⟩ := Prod.mk.inj (Option.some.inj hact)
    cases ok <;> exact ⟨core_lined hl rfl, hquiet⟩
  | commitBatching r =>
    obtain ⟨rfl, rfl⟩ := Prod.mk.inj (Option.some.inj hact)
    exact ⟨core_lined hl (all_apply hC), hquiet⟩
  | abortBatching ok =>
    obtain ⟨rfl, rfl⟩ := Prod.mk.inj (Option.some.inj hact)
    cases ok with
    | true => exact ⟨core_lined hl (all_apply (r := .dropped) fun _ ↦ hC rfl), hquiet⟩
    | false => exact ⟨core_lined hl rfl, hquiet⟩
  | abortJob ok =>
    obtain ⟨rfl, rfl⟩ := Prod.mk.inj (Option.some.inj hact)
    cases ok with
    | true =>
      have hall : h.core.dropJob.all = h.core.all := by
        rw [Sender.all_dropJob, Sender.all, hC rfl, List.append_nil]
      exact ⟨⟨hl.deqResult.trans hall.symm, fun kv hkv ↦ hl.passes kv (List.mem_of_mem_take hkv),
        hl.fresh⟩, hquiet⟩
    | false => exact ⟨hl, hquiet⟩
  | respond frame =>
    obtain ⟨call, hcall, hrespond⟩ := Option.map_eq_some_iff.1 hact
    cases frame with
    | result res errMsg =>
      have hresult := respond_lined hl hcall res errMsg
      rwa [hrespond] at hresult
    | exception => exact absurd rfl hC

/-! ### Runs -/

variable {s t : State κ}

/-- **The invariant.** -/
structure Sound (s : State κ) : Prop where
  lined : ∀ h ∈ s.handlers, h.Lined s.made
  own : ∀ a ∈ s.events.answered, a.Own

omit [DecidableEq κ] in
theorem start_sound : Sound (State.start : State κ) :=
  ⟨fun _ hh ↦ absurd hh List.not_mem_nil, fun _ ha ↦ absurd ha List.not_mem_nil⟩

/-- **One step.** -/
theorem step_sound (hs : Sound s) (a : Action κ) (hC : s.Orderly a) (ht : s.step a = some t) :
    Sound t := by
  cases a with
  | newHandler =>
    obtain rfl := Option.some.inj ht
    refine ⟨fun g hg ↦ ?_, hs.own⟩
    rcases List.mem_append.1 hg with hg | hg
    · exact hs.lined g hg
    · obtain rfl := List.mem_singleton.1 hg
      exact new_lined
  | call i c cbs sent =>
    obtain ⟨h, hi, rfl⟩ := Option.map_eq_some_iff.1 ht
    refine ⟨fun g hg ↦ ?_, hs.own⟩
    rcases List.mem_or_eq_of_mem_set hg with hg | rfl
    · exact (hs.lined g hg).mono (Nat.le_succ _)
    · exact call_lined (hs.lined h (List.mem_of_getElem? hi)) c cbs sent
  | on i op =>
    obtain ⟨h, hi, ht⟩ := Option.bind_eq_some_iff.1 ht
    obtain ⟨⟨h', e⟩, hact, rfl⟩ := Option.map_eq_some_iff.1 ht
    obtain ⟨hlined, hown⟩ := act_lined (hs.lined h (List.mem_of_getElem? hi)) op (hC h hi) hact
    refine ⟨fun g hg ↦ ?_, fun a ha ↦ (List.mem_append.1 ha).elim (hs.own a) (hown a)⟩
    rcases List.mem_or_eq_of_mem_set hg with hg | rfl
    · exact hs.lined g hg
    · exact hlined
  | appendTo i j =>
    rw [State.step] at ht
    split at ht
    · next h other hi hj =>
      obtain ⟨-, ht⟩ := Option.ite_none_left_eq_some.1 ht
      obtain rfl := Option.some.inj ht
      have hl := hs.lined h (List.mem_of_getElem? hi)
      have hlo := hs.lined other (List.mem_of_getElem? hj)
      -- nothing is pending, so nothing is on the wire
      have hnil : h.m_deqResult = [] := hC h hi
      have hwire : h.core.wire = [] := by
        have hall : h.core.wire ++ h.core.inJob ++ h.core.inBatch = [] :=
          hl.deqResult.symm.trans hnil
        exact (List.append_eq_nil_iff.1 (List.append_eq_nil_iff.1 hall).1).1
      have htake : (other.core.takeOver h.core.wire).all = other.core.all := by
        rw [Sender.takeOver, hwire, List.append_nil]
      have hleft : ({ h.core with wire := [] } : Sender (MyCallback κ)).all = h.core.all := by
        rw [← hwire]
      refine ⟨fun g hg ↦ ?_, hs.own⟩
      rcases List.mem_or_eq_of_mem_set hg with hg | rfl
      · rcases List.mem_or_eq_of_mem_set hg with hg | rfl
        · exact hs.lined g hg
        · refine ⟨?_, fun kv hkv ↦ (List.mem_append.1 hkv).elim (hlo.passes kv) (hl.passes kv),
            fun cb hcb ↦ (List.mem_append.1 hcb).elim (hlo.fresh cb) (hl.fresh cb)⟩
          rw [hnil, List.append_nil, htake]
          exact hlo.deqResult
      · exact ⟨hl.deqResult.trans hleft.symm, fun _ hkv ↦ absurd hkv List.not_mem_nil, hl.fresh⟩
    · exact nomatch ht

/-- **Results reach their own callback**: in every run in which no request ends without a result. -/
theorem javaResults_own (as : List (Action κ))
    (hin : Within State.step State.Orderly State.start as)
    (hrun : run State.step State.start as = some t) : t.OwnResults := by
  have hs := invariant_of_within (I := Sound) (fun _ a _ hs hC hstep ↦ step_sound hs a hC hstep) as
    start_sound hin hrun
  exact ⟨hs.own, fun h hh ↦ pending_of_eq (hs.lined h hh).deqResult⟩

/-- A transaction with a client queue. The second `Open` is refused; the results of the others come
in order. -/
def someActions : List (Action ℕ) :=
  [.newHandler, .call 0 .Open ⟨some 1, none, some 2⟩ true, .call 0 .Open ⟨some 3, none, none⟩ false,
    .call 0 (.BeginTrans true) ⟨some 4, some 5, none⟩ true, .call 0 .Prepare ⟨none, none, none⟩ true,
    .on 0 (.respond (.result 0 "db")), .call 0 (.EndTrans true) ⟨some 6, none, none⟩ true,
    .on 0 (.respond (.result 7 "locked")), .on 0 (.respond (.result 0 "")),
    .on 0 (.respond (.result 0 ""))]

theorem javaResults_own_someActions :
    ∃ t : State ℕ, run State.step State.start someActions = some t ∧ t.OwnResults ∧
      t.events.answered.flatMap Answered.invoked =
        [.DResult 0 1 0 "", .DResult 2 4 7 "locked", .DResult 4 6 0 ""] :=
  ⟨_, rfl, javaResults_own someActions (by decide) rfl, rfl⟩

/-- **A result reaches the callback of another call.** The first `Open` has been answered with an
exception, which leaves its entry in front. -/
theorem exception_leaves_entry :
    ¬ ∀ (as : List (Action ℕ)) (t : State ℕ), run State.step State.start as = some t →
      t.OwnResults := by
  intro hall
  have hown := (hall [.newHandler, .call 0 .Open ⟨some 1, none, none⟩ true,
    .on 0 (.respond .exception), .call 0 .Open ⟨some 2, none, none⟩ true,
    .on 0 (.respond (.result 0 "db"))] _ rfl).own
    ⟨⟨idOpen, some 2, 1⟩, .result 0 "db", [.DResult 0 1 0 ""]⟩ (by decide)
  exact absurd hown (by decide)

end SocketPro.Java.DBHandler
