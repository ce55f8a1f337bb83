import SocketPro.Database.ParameterStream
import SocketPro.Database.ColumnInfo
import SocketPro.Foundation.Run

/-!
# The calls in flight of `CAsyncDBHandler`

`Execute`, `ExecuteBatch`, `BeginTrans` and `EndTrans` of `udb_client.h` as far as the maps of
callbacks and the job of the client queue are concerned. A call is serialised with the others by
`m_csOneSending`. It issues a call index, registers its callbacks under it and sends its request;
with parameters it first opens a job on the client queue and streams the parameters.

What is decided elsewhere is the `Env` of a call: whether the client queue is started, whether
`StartJob` succeeds and which of the requests of the call are accepted. The call index is a counter
of 64 bits in the source and a natural number here.

**What a failed call leaves behind** (`failed_call_iff`). Where the last request is refused, the
call takes its own entries back. Where a request with parameters is refused, `Clean` drops the
entries of *all* calls. And on no path is a job closed that the call has opened. So a failed call
leaves the other calls alone exactly if it has opened no job and either all its parameters were
accepted or there was no entry to lose.
-/

namespace SocketPro.Database

open Machine

/-- The callbacks for the rows of a call. -/
structure CRowsetHandler (H : Type) where
  header : Option H
  row : Option H
deriving DecidableEq

/-- The handler and the job of its client queue. -/
structure CAsyncDBHandler (H : Type) where
  m_mapRowset : ℕ → Option (CRowsetHandler H)
  /-- The array that the pointer of a call points to. -/
  m_mapParameterCall : ℕ → Option (List CDBVariant)
  m_mapHandler : ℕ → Option (Option H)
  m_vColInfo : List CDBColumnInfo
  m_lastReqId : ℕ
  /-- `m_vData` and `m_Blob`. -/
  rows : RowBuffer
  m_queueOk : Bool
  /-- The last call index that has been issued. -/
  m_CallIndex : ℕ
  /-- A job is open on the client queue. -/
  job : Bool

/-- What is decided outside of a call. -/
structure Env where
  IsQueueStarted : Bool
  StartJob : Bool
  /-- Whether the `n`-th request of the call is accepted. -/
  SendRequest : ℕ → Bool

/-- `emplace` of a map: an entry that exists is kept. -/
def emplace {V : Type} (m : ℕ → Option V) (index : ℕ) (v : V) : ℕ → Option V :=
  if (m index).isSome then m else Function.update m index (some v)

/-- `erase` of a map. -/
def erase {V : Type} (m : ℕ → Option V) (index : ℕ) : ℕ → Option V := Function.update m index none

variable {H : Type}

namespace CAsyncDBHandler

/-- A handler that has just been created. -/
def init : CAsyncDBHandler H where
  m_mapRowset := fun _ ↦ none
  m_mapParameterCall := fun _ ↦ none
  m_mapHandler := fun _ ↦ none
  m_vColInfo := []
  m_lastReqId := 0
  rows := ⟨[], []⟩
  m_queueOk := false
  m_CallIndex := 0
  job := false

/-- `Clean()`. -/
def Clean (s : CAsyncDBHandler H) : CAsyncDBHandler H :=
  { s with
    m_mapRowset := fun _ ↦ none
    m_mapParameterCall := fun _ ↦ none
    m_mapHandler := fun _ ↦ none
    m_vColInfo := []
    m_lastReqId := 0
    rows := ⟨[], []⟩ }

/-- The requests of `SendParametersData` are accepted. -/
def sendsParameters (e : Env) (vParam : List CDBVariant) : Bool :=
  (List.range (SendParametersData vParam).length).all e.SendRequest

/-- A call with parameters. `queueOk` tells that it has opened a job; its callbacks are put into the
maps by `register` and taken back by `unregister`. -/
def callWithParameters (queueOk : Bool) (vParam : List CDBVariant)
    (register unregister : ℕ → CAsyncDBHandler H → CAsyncDBHandler H) (e : Env)
    (s : CAsyncDBHandler H) : Bool × CAsyncDBHandler H :=
  let s := { s with job := s.job || queueOk }
  if sendsParameters e vParam then
    let callIndex := s.m_CallIndex + 1
    let s := register callIndex { s with m_CallIndex := callIndex }
    if e.SendRequest (SendParametersData vParam).length then
      -- `if (queueOk) EndJob()`.
      (true, { s with job := s.job && !queueOk })
    else (false, unregister callIndex s)
  else (false, s.Clean)

/-- `if (rowset || meta) m_mapRowset.emplace(callIndex, CRowsetHandler(rh, row))`. -/
def addRowset (row rh : Option H) (metaData : Bool) (callIndex : ℕ) (s : CAsyncDBHandler H) :
    CAsyncDBHandler H :=
  if row.isSome || (metaData && rh.isSome) then
    { s with m_mapRowset := emplace s.m_mapRowset callIndex ⟨rh, row⟩ }
  else s

/-- `if (rowset || meta) m_mapRowset.erase(callIndex)`. -/
def eraseRowset (row rh : Option H) (metaData : Bool) (callIndex : ℕ) (s : CAsyncDBHandler H) :
    CAsyncDBHandler H :=
  if row.isSome || (metaData && rh.isSome) then
    { s with m_mapRowset := erase s.m_mapRowset callIndex }
  else s

/-- `m_mapParameterCall[callIndex] = &vParam`. -/
def setParameterCall (vParam : List CDBVariant) (callIndex : ℕ) (s : CAsyncDBHandler H) :
    CAsyncDBHandler H :=
  { s with m_mapParameterCall := Function.update s.m_mapParameterCall callIndex (some vParam) }

/-- `m_mapParameterCall.erase(callIndex)`. -/
def eraseParameterCall (callIndex : ℕ) (s : CAsyncDBHandler H) : CAsyncDBHandler H :=
  { s with m_mapParameterCall := erase s.m_mapParameterCall callIndex }

/-- `m_mapHandler.emplace(callIndex, batchHeader)`. -/
def addHandler (batchHeader : Option H) (callIndex : ℕ) (s : CAsyncDBHandler H) :
    CAsyncDBHandler H :=
  { s with m_mapHandler := emplace s.m_mapHandler callIndex batchHeader }

/-- `m_mapHandler.erase(callIndex)`. -/
def eraseHandler (callIndex : ℕ) (s : CAsyncDBHandler H) : CAsyncDBHandler H :=
  { s with m_mapHandler := erase s.m_mapHandler callIndex }

/-- Whether `Execute` with parameters, or `ExecuteBatch` with a statement in UTF-16, opens a job. -/
def opensJob (vParam : List CDBVariant) (e : Env) : Bool :=
  !vParam.isEmpty && (e.IsQueueStarted && e.StartJob)

/-- Whether `ExecuteBatch` with a statement of `wchar_t` opens a job: the queue is not asked. -/
def opensJobUnasked (vParam : List CDBVariant) (e : Env) : Bool := !vParam.isEmpty && e.StartJob

/-- `Execute(vParam, handler, row, rh, meta, ...)`. -/
def Execute (vParam : List CDBVariant) (row rh : Option H) (metaData : Bool) (e : Env) :
    CAsyncDBHandler H → Bool × CAsyncDBHandler H :=
  callWithParameters (opensJob vParam e) vParam
    (fun callIndex s ↦ setParameterCall vParam callIndex (addRowset row rh metaData callIndex s))
    (fun callIndex s ↦ eraseRowset row rh metaData callIndex (eraseParameterCall callIndex s)) e

/-- The part of `ExecuteBatch` that its two overloads share. -/
def executeBatch (queueOk : Bool) (vParam : List CDBVariant) (row rh batchHeader : Option H)
    (metaData : Bool) (e : Env) : CAsyncDBHandler H → Bool × CAsyncDBHandler H :=
  callWithParameters queueOk vParam
    (fun callIndex s ↦ addHandler batchHeader callIndex
      (setParameterCall vParam callIndex (addRowset row rh metaData callIndex s)))
    (fun callIndex s ↦ eraseHandler callIndex
      (eraseRowset row rh metaData callIndex (eraseParameterCall callIndex s))) e

/-- `ExecuteBatch(isolation, const wchar_t *sql, vParam, ...)`. -/
def ExecuteBatch (vParam : List CDBVariant) (row rh batchHeader : Option H) (metaData : Bool)
    (e : Env) : CAsyncDBHandler H → Bool × CAsyncDBHandler H :=
  executeBatch (opensJobUnasked vParam e) vParam row rh batchHeader metaData e

/-- `ExecuteBatch(isolation, const char16_t *sql, vParam, ...)`. -/
def ExecuteBatch16 (vParam : List CDBVariant) (row rh batchHeader : Option H) (metaData : Bool)
    (e : Env) : CAsyncDBHandler H → Bool × CAsyncDBHandler H :=
  executeBatch (opensJob vParam e) vParam row rh batchHeader metaData e

/-- `BeginTrans`: the job stays open for the transaction. -/
def BeginTrans (e : Env) (s : CAsyncDBHandler H) : Bool × CAsyncDBHandler H :=
  let queueOk := e.IsQueueStarted && e.StartJob
  (e.SendRequest 0, { s with m_queueOk := queueOk, job := s.job || queueOk })

/-- `EndTrans`. -/
def EndTrans (e : Env) (s : CAsyncDBHandler H) : Bool × CAsyncDBHandler H :=
  if e.SendRequest 0 then
    if s.m_queueOk then (true, { s with m_queueOk := false, job := false }) else (true, s)
  else (false, s)

/-- `Execute(sql, handler, row, rh, meta, ...)`, which has no parameters to stream. -/
def ExecuteSql (row rh : Option H) (metaData : Bool) (e : Env) (s : CAsyncDBHandler H) :
    Bool × CAsyncDBHandler H :=
  let index := s.m_CallIndex + 1
  let s := addRowset row rh metaData index { s with m_CallIndex := index }
  if e.SendRequest 0 then (true, s) else (false, eraseRowset row rh metaData index s)

/-- `Process`: the result of a call has arrived. -/
def Process (reqId index : ℕ) (s : CAsyncDBHandler H) : CAsyncDBHandler H :=
  { s with
    m_lastReqId := reqId
    m_mapRowset := erase s.m_mapRowset index
    m_mapParameterCall := erase s.m_mapParameterCall index
    m_mapHandler := erase s.m_mapHandler index }

end CAsyncDBHandler

/-! ### Runs -/

/-- The calls that the question is about. -/
inductive Call (H : Type)
  | execute (vParam : List CDBVariant) (row rh : Option H) (metaData : Bool)
  | executeBatch (vParam : List CDBVariant) (row rh batchHeader : Option H) (metaData : Bool)
  | executeBatch16 (vParam : List CDBVariant) (row rh batchHeader : Option H) (metaData : Bool)
  | beginTrans

namespace Call

/-- Make the call. -/
def perform (e : Env) : Call H → CAsyncDBHandler H → Bool × CAsyncDBHandler H
  | execute vParam row rh metaData => CAsyncDBHandler.Execute vParam row rh metaData e
  | executeBatch vParam row rh batchHeader metaData =>
    CAsyncDBHandler.ExecuteBatch vParam row rh batchHeader metaData e
  | executeBatch16 vParam row rh batchHeader metaData =>
    CAsyncDBHandler.ExecuteBatch16 vParam row rh batchHeader metaData e
  | beginTrans => CAsyncDBHandler.BeginTrans e

/-- The parameters to be streamed. -/
def vParam : Call H → List CDBVariant
  | execute vParam _ _ _ => vParam
  | executeBatch vParam _ _ _ _ => vParam
  | executeBatch16 vParam _ _ _ _ => vParam
  | beginTrans => []

/-- The call opens a job with `StartJob`. -/
def opensJob (e : Env) : Call H → Bool
  | execute vParam _ _ _ => CAsyncDBHandler.opensJob vParam e
  | executeBatch vParam _ _ _ _ => CAsyncDBHandler.opensJobUnasked vParam e
  | executeBatch16 vParam _ _ _ _ => CAsyncDBHandler.opensJob vParam e
  | beginTrans => e.IsQueueStarted && e.StartJob

end Call

/-- What can happen to a handler, one after the other. -/
inductive Action (H : Type)
  | call (c : Call H) (e : Env)
  | executeSql (row rh : Option H) (metaData : Bool) (e : Env)
  | endTrans (e : Env)
  /-- The result of a call. -/
  | process (reqId index : ℕ)
  /-- A part of a rowset has been received. -/
  | received (m_vColInfo : List CDBColumnInfo) (rows : RowBuffer)
  | cleanCallbacks

/-- One action. -/
def step (s : CAsyncDBHandler H) : Action H → Option (CAsyncDBHandler H)
  | .call c e => some (c.perform e s).2
  | .executeSql row rh metaData e => some (s.ExecuteSql row rh metaData e).2
  | .endTrans e => some (s.EndTrans e).2
  | .process reqId index => some (s.Process reqId index)
  | .received m_vColInfo rows => some { s with m_vColInfo, rows }
  | .cleanCallbacks => some s.Clean

/-! ### Entries -/

/-- No map has an entry for the index. -/
structure GoneAt (index : ℕ) (s : CAsyncDBHandler H) : Prop where
  rowset : s.m_mapRowset index = none
  parameterCall : s.m_mapParameterCall index = none
  handler : s.m_mapHandler index = none

/-- The two states have the same entries for an index. -/
structure SameAt (index : ℕ) (s t : CAsyncDBHandler H) : Prop where
  rowset : t.m_mapRowset index = s.m_mapRowset index
  parameterCall : t.m_mapParameterCall index = s.m_mapParameterCall index
  handler : t.m_mapHandler index = s.m_mapHandler index

theorem SameAt.trans {index : ℕ} {s t u : CAsyncDBHandler H} (h : SameAt index s t)
    (h' : SameAt index t u) : SameAt index s u :=
  ⟨h'.rowset.trans h.rowset, h'.parameterCall.trans h.parameterCall, h'.handler.trans h.handler⟩

theorem SameAt.gone {index : ℕ} {s t : CAsyncDBHandler H} (h : SameAt index s t)
    (hs : GoneAt index s) : GoneAt index t :=
  ⟨h.rowset.trans hs.rowset, h.parameterCall.trans hs.parameterCall, h.handler.trans hs.handler⟩

/-- A part of a call that touches the entries of one index only, and neither the job nor the
counter. -/
structure OnlyAt (index : ℕ) (s t : CAsyncDBHandler H) : Prop where
  same : ∀ i ≠ index, SameAt i s t
  job : t.job = s.job
  counter : t.m_CallIndex = s.m_CallIndex

theorem OnlyAt.refl (index : ℕ) (s : CAsyncDBHandler H) : OnlyAt index s s :=
  ⟨fun _ _ ↦ ⟨rfl, rfl, rfl⟩, rfl, rfl⟩

theorem OnlyAt.trans {index : ℕ} {s t u : CAsyncDBHandler H} (h : OnlyAt index s t)
    (h' : OnlyAt index t u) : OnlyAt index s u :=
  ⟨fun i hi ↦ (h.same i hi).trans (h'.same i hi), h'.job.trans h.job,
    h'.counter.trans h.counter⟩

section Maps

variable {V : Type} (m : ℕ → Option V) {index i : ℕ}

theorem emplace_of_ne (v : V) (hi : i ≠ index) : emplace m index v i = m i := by
  unfold emplace
  split
  · rfl
  · exact Function.update_of_ne hi _ _

theorem erase_of_ne (hi : i ≠ index) : erase m index i = m i := Function.update_of_ne hi _ _

theorem erase_self : erase m index index = none := Function.update_self _ _ _

end Maps

namespace CAsyncDBHandler

@[simp] theorem addRowset_m_mapHandler (row rh : Option H) (metaData : Bool) (index : ℕ)
    (s : CAsyncDBHandler H) : (addRowset row rh metaData index s).m_mapHandler = s.m_mapHandler := by
  unfold addRowset
  split <;> rfl

@[simp] theorem eraseRowset_m_mapHandler (row rh : Option H) (metaData : Bool) (index : ℕ)
    (s : CAsyncDBHandler H) :
    (eraseRowset row rh metaData index s).m_mapHandler = s.m_mapHandler := by
  unfold eraseRowset
  split <;> rfl

@[simp] theorem eraseRowset_m_mapParameterCall (row rh : Option H) (metaData : Bool) (index : ℕ)
    (s : CAsyncDBHandler H) :
    (eraseRowset row rh metaData index s).m_mapParameterCall = s.m_mapParameterCall := by
  unfold eraseRowset
  split <;> rfl

theorem addRowset_onlyAt (row rh : Option H) (metaData : Bool) (index : ℕ)
    (s : CAsyncDBHandler H) : OnlyAt index s (addRowset row rh metaData index s) := by
  unfold addRowset
  split
  · exact ⟨fun i hi ↦ ⟨emplace_of_ne _ _ hi, rfl, rfl⟩, rfl, rfl⟩
  · exact .refl index s

theorem eraseRowset_onlyAt (row rh : Option H) (metaData : Bool) (index : ℕ)
    (s : CAsyncDBHandler H) : OnlyAt index s (eraseRowset row rh metaData index s) := by
  unfold eraseRowset
  split
  · exact ⟨fun i hi ↦ ⟨erase_of_ne _ hi, rfl, rfl⟩, rfl, rfl⟩
  · exact .refl index s

theorem setParameterCall_onlyAt (vParam : List CDBVariant) (index : ℕ) (s : CAsyncDBHandler H) :
    OnlyAt index s (setParameterCall vParam index s) :=
  ⟨fun _ hi ↦ ⟨rfl, Function.update_of_ne hi _ _, rfl⟩, rfl, rfl⟩

theorem eraseParameterCall_onlyAt (index : ℕ) (s : CAsyncDBHandler H) :
    OnlyAt index s (eraseParameterCall index s) :=
  ⟨fun _ hi ↦ ⟨rfl, erase_of_ne _ hi, rfl⟩, rfl, rfl⟩

theorem addHandler_onlyAt (batchHeader : Option H) (index : ℕ) (s : CAsyncDBHandler H) :
    OnlyAt index s (addHandler batchHeader index s) :=
  ⟨fun _ hi ↦ ⟨rfl, rfl, emplace_of_ne _ _ hi⟩, rfl, rfl⟩

theorem eraseHandler_onlyAt (index : ℕ) (s : CAsyncDBHandler H) :
    OnlyAt index s (eraseHandler index s) :=
  ⟨fun _ hi ↦ ⟨rfl, rfl, erase_of_ne _ hi⟩, rfl, rfl⟩

/-- What has been added for the rows of a call is gone when it is erased under the same condition. -/
theorem eraseRowset_gone (row rh : Option H) (metaData : Bool) {index : ℕ}
    {s t : CAsyncDBHandler H} (hs : s.m_mapRowset index = none)
    (ht : t.m_mapRowset = (addRowset row rh metaData index s).m_mapRowset) :
    (eraseRowset row rh metaData index t).m_mapRowset index = none := by
  unfold eraseRowset addRowset at *
  split
  · exact erase_self _
  · next h =>
    rw [if_neg h] at ht
    rw [ht, hs]

end CAsyncDBHandler

/-! ### What a failed call leaves behind -/

/-- Every index that has not been issued yet is without entries. -/
def Fresh (s : CAsyncDBHandler H) : Prop := ∀ i, s.m_CallIndex < i → GoneAt i s

/-- A failed call has left the entries of the other indexes as they were and none for its own
index, and a job that it has opened is closed. -/
structure LeavesOthersAlone (s t : CAsyncDBHandler H) (opened : Bool) : Prop where
  others : ∀ i ≠ s.m_CallIndex + 1, SameAt i s t
  gone : GoneAt (s.m_CallIndex + 1) t
  closed : opened = true → t.job = false

/-- The condition: the call opens no job, and if one of its parameters is refused, there is no
entry that could be lost. -/
def Harmless (s : CAsyncDBHandler H) (c : Call H) (e : Env) : Prop :=
  c.opensJob e = false ∧
    (CAsyncDBHandler.sendsParameters e c.vParam = true ∨ ∀ i, GoneAt i s)

section Failed

variable {s : CAsyncDBHandler H} {e : Env} {queueOk : Bool} {vParam : List CDBVariant}
  {register unregister : ℕ → CAsyncDBHandler H → CAsyncDBHandler H}

/-- `Clean` loses what there is. -/
theorem clean_iff (hs : Fresh s) :
    LeavesOthersAlone s { s with job := s.job || queueOk }.Clean queueOk ↔
      queueOk = false ∧ ∀ i, GoneAt i s := by
  constructor
  · intro h
    constructor
    · cases hq : queueOk with
      | false => rfl
      | true =>
        have hjob : (s.job || queueOk) = false := h.closed hq
        rw [hq, Bool.or_true] at hjob
        cases hjob
    · intro i
      rcases eq_or_ne i (s.m_CallIndex + 1) with rfl | hi
      · exact hs _ (Nat.lt_succ_self _)
      · obtain ⟨hrowset, hparameter, hhandler⟩ := h.others i hi
        exact ⟨hrowset.symm, hparameter.symm, hhandler.symm⟩
  · rintro ⟨hq, hgone⟩
    refine ⟨fun i _ ↦ ?_, ⟨rfl, rfl, rfl⟩, fun h ↦ ?_⟩
    · obtain ⟨hrowset, hparameter, hhandler⟩ := hgone i
      exact ⟨hrowset.symm, hparameter.symm, hhandler.symm⟩
    · rw [hq] at h
      cases h

/-- **A call with parameters that fails.** -/
theorem callWithParameters_iff (hs : Fresh s)
    (hregister : ∀ index t, OnlyAt index t (register index t))
    (hunregister : ∀ index t, OnlyAt index t (unregister index t))
    (hgone : ∀ index t, GoneAt index t → GoneAt index (unregister index (register index t)))
    (hfail : (CAsyncDBHandler.callWithParameters queueOk vParam register unregister e s).1 = false) :
    LeavesOthersAlone s
        (CAsyncDBHandler.callWithParameters queueOk vParam register unregister e s).2 queueOk ↔
      queueOk = false ∧
        (CAsyncDBHandler.sendsParameters e vParam = true ∨ ∀ i, GoneAt i s) := by
  unfold CAsyncDBHandler.callWithParameters at hfail ⊢
  cases hsends : CAsyncDBHandler.sendsParameters e vParam with
  | false =>
    simp only [Bool.false_eq_true, if_false, false_or]
    exact clean_iff hs
  | true =>
    rw [hsends] at hfail
    cases hlast : e.SendRequest (SendParametersData vParam).length with
    | true =>
      simp only [hlast, if_true] at hfail
      cases hfail
    | false =>
      simp only [if_true, Bool.false_eq_true, if_false, true_or, and_true]
      -- The state when the callbacks are registered.
      generalize ht : ({ s with
        job := s.job || queueOk, m_CallIndex := s.m_CallIndex + 1 } : CAsyncDBHandler H) = t
      have honly := (hregister (s.m_CallIndex + 1) t).trans (hunregister (s.m_CallIndex + 1) _)
      have hjob : t.job = (s.job || queueOk) := by rw [← ht]
      have hsame : ∀ i, SameAt i s t := fun i ↦ by
        rw [← ht]
        exact ⟨rfl, rfl, rfl⟩
      constructor
      · intro h
        cases hq : queueOk with
        | false => rfl
        | true =>
          have hclosed := h.closed hq
          rw [honly.job, hjob, hq, Bool.or_true] at hclosed
          cases hclosed
      · intro hq
        refine ⟨fun i hi ↦ (hsame i).trans (honly.same i hi), ?_, fun h ↦ ?_⟩
        · exact hgone _ _ ((hsame _).gone (hs _ (Nat.lt_succ_self _)))
        · rw [hq] at h
          cases h

end Failed

/-- Each of the calls, from a state in which indexes to come are without entries. -/
theorem perform_failed_iff {s : CAsyncDBHandler H} (hs : Fresh s) {c : Call H} {e : Env}
    (hfail : (c.perform e s).1 = false) :
    LeavesOthersAlone s (c.perform e s).2 (c.opensJob e) ↔ Harmless s c e := by
  have hbatch : ∀ (queueOk : Bool) (vParam : List CDBVariant) (row rh batchHeader : Option H)
      (metaData : Bool),
      (CAsyncDBHandler.executeBatch queueOk vParam row rh batchHeader metaData e s).1 = false →
      (LeavesOthersAlone s
          (CAsyncDBHandler.executeBatch queueOk vParam row rh batchHeader metaData e s).2 queueOk ↔
        queueOk = false ∧
          (CAsyncDBHandler.sendsParameters e vParam = true ∨ ∀ i, GoneAt i s)) := by
    intro queueOk vParam row rh batchHeader metaData
    refine callWithParameters_iff hs (fun index t ↦ ?_) (fun index t ↦ ?_) fun index t ht ↦ ?_
    · exact ((CAsyncDBHandler.addRowset_onlyAt row rh metaData index t).trans
        (CAsyncDBHandler.setParameterCall_onlyAt vParam index _)).trans
          (CAsyncDBHandler.addHandler_onlyAt batchHeader index _)
    · exact ((CAsyncDBHandler.eraseParameterCall_onlyAt index t).trans
        (CAsyncDBHandler.eraseRowset_onlyAt row rh metaData index _)).trans
          (CAsyncDBHandler.eraseHandler_onlyAt index _)
    · refine ⟨CAsyncDBHandler.eraseRowset_gone row rh metaData ht.rowset rfl, ?_, erase_self _⟩
      show (CAsyncDBHandler.eraseRowset row rh metaData index _).m_mapParameterCall index = none
      rw [CAsyncDBHandler.eraseRowset_m_mapParameterCall]
      exact erase_self _
  cases c with
  | execute vParam row rh metaData =>
    refine callWithParameters_iff hs (fun index t ↦ ?_) (fun index t ↦ ?_) (fun index t ht ↦ ?_)
      hfail
    · exact (CAsyncDBHandler.addRowset_onlyAt row rh metaData index t).trans
        (CAsyncDBHandler.setParameterCall_onlyAt vParam index _)
    · exact (CAsyncDBHandler.eraseParameterCall_onlyAt index t).trans
        (CAsyncDBHandler.eraseRowset_onlyAt row rh metaData index _)
    · refine ⟨CAsyncDBHandler.eraseRowset_gone row rh metaData ht.rowset rfl, ?_, ?_⟩
      · rw [CAsyncDBHandler.eraseRowset_m_mapParameterCall]
        exact erase_self _
      · simp [CAsyncDBHandler.eraseParameterCall, CAsyncDBHandler.setParameterCall, ht.handler]
  | executeBatch vParam row rh batchHeader metaData =>
    exact hbatch _ vParam row rh batchHeader metaData hfail
  | executeBatch16 vParam row rh batchHeader metaData =>
    exact hbatch _ vParam row rh batchHeader metaData hfail
  | beginTrans =>
    constructor
    · intro h
      refine ⟨?_, .inl rfl⟩
      cases hq : e.IsQueueStarted && e.StartJob with
      | false => exact hq
      | true =>
        have hjob : (s.job || (e.IsQueueStarted && e.StartJob)) = false := h.closed hq
        rw [hq, Bool.or_true] at hjob
        cases hjob
    · rintro ⟨hq, -⟩
      refine ⟨fun _ _ ↦ ⟨rfl, rfl, rfl⟩, ?_, fun h ↦ ?_⟩
      · obtain ⟨hrowset, hparameter, hhandler⟩ := hs _ (Nat.lt_succ_self _)
        exact ⟨hrowset, hparameter, hhandler⟩
      · rw [hq] at h
        cases h

/-! ### Indexes to come are without entries -/

theorem Fresh.onlyAt {s t : CAsyncDBHandler H} (hs : Fresh s) {index : ℕ}
    (h : OnlyAt index s t) (hindex : index ≤ s.m_CallIndex) : Fresh t := by
  intro i hi
  rw [h.counter] at hi
  exact (h.same i (by omega)).gone (hs i hi)

/-- A call with parameters may issue an index and touches no later one. -/
theorem Fresh.callWithParameters {s : CAsyncDBHandler H} (hs : Fresh s) {e : Env} {queueOk : Bool}
    {vParam : List CDBVariant} {register unregister : ℕ → CAsyncDBHandler H → CAsyncDBHandler H}
    (hregister : ∀ index t, OnlyAt index t (register index t))
    (hunregister : ∀ index t, OnlyAt index t (unregister index t)) :
    Fresh (CAsyncDBHandler.callWithParameters queueOk vParam register unregister e s).2 := by
  unfold CAsyncDBHandler.callWithParameters
  cases CAsyncDBHandler.sendsParameters e vParam with
  | false => exact fun i _ ↦ ⟨rfl, rfl, rfl⟩
  | true =>
    have hissued : Fresh ({ s with
        job := s.job || queueOk, m_CallIndex := s.m_CallIndex + 1 } : CAsyncDBHandler H) := by
      intro i hi
      obtain ⟨hrowset, hparameter, hhandler⟩ := hs i (Nat.lt_of_succ_lt hi)
      exact ⟨hrowset, hparameter, hhandler⟩
    have hreg := hissued.onlyAt (hregister (s.m_CallIndex + 1) _) le_rfl
    have hcounter := (hregister (s.m_CallIndex + 1) { s with
      job := s.job || queueOk, m_CallIndex := s.m_CallIndex + 1 }).counter
    cases e.SendRequest (SendParametersData vParam).length with
    | true =>
      intro i hi
      obtain ⟨hrowset, hparameter, hhandler⟩ := hreg i hi
      exact ⟨hrowset, hparameter, hhandler⟩
    | false => exact hreg.onlyAt (hunregister _ _) (hcounter ▸ le_rfl)

theorem Fresh.perform {s : CAsyncDBHandler H} (hs : Fresh s) (c : Call H) (e : Env) :
    Fresh (c.perform e s).2 := by
  have hadd : ∀ (vParam : List CDBVariant) (row rh : Option H) (metaData : Bool) (index : ℕ)
      (t : CAsyncDBHandler H), OnlyAt index t
        (CAsyncDBHandler.setParameterCall vParam index
          (CAsyncDBHandler.addRowset row rh metaData index t)) := fun vParam row rh metaData index t ↦
    (CAsyncDBHandler.addRowset_onlyAt row rh metaData index t).trans
      (CAsyncDBHandler.setParameterCall_onlyAt vParam index _)
  have herase : ∀ (row rh : Option H) (metaData : Bool) (index : ℕ) (t : CAsyncDBHandler H),
      OnlyAt index t (CAsyncDBHandler.eraseRowset row rh metaData index
        (CAsyncDBHandler.eraseParameterCall index t)) := fun row rh metaData index t ↦
    (CAsyncDBHandler.eraseParameterCall_onlyAt index t).trans
      (CAsyncDBHandler.eraseRowset_onlyAt row rh metaData index _)
  cases c with
  | execute vParam row rh metaData =>
    exact hs.callWithParameters (hadd vParam row rh metaData) (herase row rh metaData)
  | executeBatch vParam row rh batchHeader metaData =>
    exact hs.callWithParameters
      (fun index t ↦ (hadd vParam row rh metaData index t).trans
        (CAsyncDBHandler.addHandler_onlyAt batchHeader index _))
      fun index t ↦ (herase row rh metaData index t).trans
        (CAsyncDBHandler.eraseHandler_onlyAt index _)
  | executeBatch16 vParam row rh batchHeader metaData =>
    exact hs.callWithParameters
      (fun index t ↦ (hadd vParam row rh metaData index t).trans
        (CAsyncDBHandler.addHandler_onlyAt batchHeader index _))
      fun index t ↦ (herase row rh metaData index t).trans
        (CAsyncDBHandler.eraseHandler_onlyAt index _)
  | beginTrans =>
    intro i hi
    obtain ⟨hrowset, hparameter, hhandler⟩ := hs i hi
    exact ⟨hrowset, hparameter, hhandler⟩

/-- **The step**: no action gives an entry to an index that has not been issued. -/
theorem Fresh.step {s t : CAsyncDBHandler H} (hs : Fresh s) {a : Action H}
    (ha : step s a = some t) : Fresh t := by
  cases a with
  | call c e =>
    cases ha
    exact hs.perform c e
  | executeSql row rh metaData e =>
    cases ha
    have hissued : Fresh ({ s with m_CallIndex := s.m_CallIndex + 1 } : CAsyncDBHandler H) := by
      intro i hi
      obtain ⟨hrowset, hparameter, hhandler⟩ := hs i (Nat.lt_of_succ_lt hi)
      exact ⟨hrowset, hparameter, hhandler⟩
    have hadd := CAsyncDBHandler.addRowset_onlyAt row rh metaData (s.m_CallIndex + 1)
      { s with m_CallIndex := s.m_CallIndex + 1 }
    unfold CAsyncDBHandler.ExecuteSql
    cases e.SendRequest 0 with
    | true => exact hissued.onlyAt hadd le_rfl
    | false =>
      exact (hissued.onlyAt hadd le_rfl).onlyAt
        (CAsyncDBHandler.eraseRowset_onlyAt row rh metaData _ _) (hadd.counter ▸ le_rfl)
  | endTrans e =>
    cases ha
    unfold CAsyncDBHandler.EndTrans
    split
    · split
      · intro i hi
        obtain ⟨hrowset, hparameter, hhandler⟩ := hs i hi
        exact ⟨hrowset, hparameter, hhandler⟩
      · exact hs
    · exact hs
  | process reqId index =>
    cases ha
    intro i hi
    obtain ⟨hrowset, hparameter, hhandler⟩ := hs i hi
    have herase : ∀ {V : Type} {m : ℕ → Option V}, m i = none → erase m index i = none := by
      intro V m hm
      rcases eq_or_ne i index with rfl | hne
      · exact erase_self m
      · rw [erase_of_ne m hne, hm]
    exact ⟨herase hrowset, herase hparameter, herase hhandler⟩
  | received m_vColInfo rows =>
    cases ha
    intro i hi
    obtain ⟨hrowset, hparameter, hhandler⟩ := hs i hi
    exact ⟨hrowset, hparameter, hhandler⟩
  | cleanCallbacks =>
    cases ha
    exact fun i _ ↦ ⟨rfl, rfl, rfl⟩

/-- Nothing is accepted, and there is no client queue. -/
def offline : Env := ⟨false, false, fun _ ↦ false⟩

end SocketPro.Database
