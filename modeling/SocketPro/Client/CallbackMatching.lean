import SocketPro.Foundation.Run
import SocketPro.Client.AsyncServiceHandler

/-!
# Matching callbacks to answers on an in-order connection

One handler on a socket whose `IsRandom()` is false, against a server that answers every request it
receives exactly once and in the order the requests were written. The system interleaves the calls
of `SendRequest`, one after the other, with the delivery of answers; a call is split where it leaves
the handler (`enter`, then the core's `write`, and `giveUp` when the core refused the request), so
an answer may arrive between any two of these points.

**What the queue knows.** `m_vCallback` holds the entries of the requests sent *with* callbacks and
nothing for the others, so on the wire there are answers that have no entry. `GetAsyncResultHandler`
tells the two apart by comparing the front entry's request id with the answer's. That is right
exactly as long as no answer to a callback-less request arrives while a later request with the same
id waits at the front (`Distinguished`).

* `callbacks_matched` — a run in which every such answer is distinguished runs, for each answer, the
  callback its own request registered and no other;
* `exists_taken_of_not_within` — the condition is exact: a run that violates it consumes the entry
  of another request.
-/

namespace SocketPro.Client

variable {κ : Type*}

/-- A request handed to `SendRequest`. -/
structure Request (κ : Type*) where
  reqId : UInt16
  cb : CResultCb κ
  deriving DecidableEq

/-- An answer delivered to the handler, and what it led to. -/
structure Answer (κ : Type*) where
  request : Request κ
  kind : AnswerKind
  outcome : CAsyncServiceHandler.Invocation κ
  deriving DecidableEq

/-- Where the running call of `SendRequest` stands. -/
inductive Call (κ : Type*) where
  /-- Before the core's `SendRequest`; with callbacks, the entry is queued already. -/
  | entered (r : Request κ) (p : Option (RRPair κ))
  /-- The core refused the request; the entry is still queued. -/
  | refused (p : RRPair κ)
  deriving DecidableEq

/-- The handler, the running call and the connection. -/
structure Connection (κ : Type*) where
  handler : CAsyncServiceHandler κ
  call : Option (Call κ)
  /-- Requests written and not yet answered, in the order they were written. -/
  outstanding : List (Request κ)
  /-- Answers delivered so far. -/
  answered : List (Answer κ)
  deriving DecidableEq

/-- The steps of the system. -/
inductive Action (κ : Type*) where
  /-- A thread calls `SendRequest`; the call runs up to the core's `SendRequest`. -/
  | enter (r : Request κ)
  /-- The core's `SendRequest` returns. -/
  | write (sent : Bool)
  /-- `SendRequest` cleans up after a refused request. -/
  | giveUp
  /-- The answer to the request written first arrives at `OnRR` or `OnSE`. -/
  | answer (kind : AnswerKind)
  deriving DecidableEq

namespace Connection

/-- The part of `SendRequest` up to the core call. An id of the framework is refused by an exception
before anything changes. -/
def enter (s : Connection κ) (r : Request κ) : Connection κ :=
  if r.reqId ≤ idReservedTwo then s
  else if r.cb.given then
    let o := s.handler.reuse r.reqId r.cb
    { s with handler := o.2.push false o.1, call := some (.entered r (some o.1)) }
  else { s with call := some (.entered r none) }

/-- The delivery of the answer to `r`. -/
def deliver (s : Connection κ) (r : Request κ) (kind : AnswerKind) : Connection κ :=
  let o := s.handler.onAnswer kind false r.reqId
  { s with handler := o.2, answered := s.answered ++ [⟨r, kind, o.1⟩] }

/-- One step of the system; `none` when the action is not enabled. -/
def step (s : Connection κ) : Action κ → Option (Connection κ)
  | .enter r =>
    match s.call with
    | none => some (s.enter r)
    | some _ => none
  | .write sent =>
    match s.call with
    | some (.entered r p) =>
      if sent then some { s with call := none, outstanding := s.outstanding ++ [r] }
      else some { s with call := p.map .refused }
    | _ => none
  | .giveUp =>
    match s.call with
    | some (.refused p) => some { s with handler := s.handler.remove false p, call := none }
    | _ => none
  | .answer kind =>
    match s.outstanding with
    | r :: rest => some ({ s with outstanding := rest }.deliver r kind)
    | [] => none

/-- A fresh handler, whatever its pool of recycled pairs holds. -/
def initial (rrStack : List ℕ) (fresh : ℕ) : Connection κ :=
  ⟨⟨[], [], rrStack, fresh⟩, none, [], []⟩

/-- The id comparison can tell the next answer's request from the request at the front of
`m_vCallback`: the answered request registered callbacks, or the front entry carries another id. -/
def Distinguished (s : Connection κ) : Action κ → Prop
  | .answer _ => ∀ r ∈ s.outstanding.head?, r.cb.given = false →
      ∀ p ∈ s.handler.vCallback.head?, p.first ≠ r.reqId
  | _ => True

instance (s : Connection κ) (a : Action κ) : Decidable (s.Distinguished a) := by
  cases a <;> unfold Distinguished <;> infer_instance

/-- The answer ran the callback its own request registered for it, if any, and no other. -/
def Matched (a : Answer κ) : Prop :=
  a.outcome.invoked = a.request.cb.forKind a.kind

instance [DecidableEq κ] (a : Answer κ) : Decidable (Matched a) :=
  inferInstanceAs (Decidable (_ = _))

/-! ### The invariant -/

/-- The entry a request leaves in `m_vCallback`, up to its address. -/
def entry (p : RRPair κ) : Request κ := ⟨p.first, p.second⟩

/-- The entry of the running call, queued behind those of the written requests. -/
def queuedByCall (s : Connection κ) : List (RRPair κ) :=
  match s.call with
  | some (.entered _ (some p)) => [p]
  | some (.refused p) => [p]
  | _ => []

/-- **The invariant of an in-order connection.** The queue is the list of the written requests that
registered callbacks, in the order they were written, followed by the entry of the running call. -/
structure InOrder (s : Connection κ) : Prop where
  /-- The running call's entry stands last, the others belong to the written requests. -/
  queue : ∃ q, s.handler.vCallback = q ++ s.queuedByCall ∧
    q.map entry = s.outstanding.filter fun r ↦ r.cb.given
  /-- Every written request has an id of the application. -/
  ids : ∀ r ∈ s.outstanding, idReservedTwo < r.reqId
  /-- The running call queued an entry exactly when it registered callbacks. -/
  call : ∀ r p, s.call = some (.entered r p) →
    idReservedTwo < r.reqId ∧ (r.cb.given = p.isSome) ∧ ∀ x ∈ p, entry x = r
  /-- Every answer so far ran the callback of its own request. -/
  matched : ∀ a ∈ s.answered, Matched a

theorem initial_inOrder (rrStack : List ℕ) (fresh : ℕ) :
    (initial rrStack fresh : Connection κ).InOrder where
  queue := ⟨[], rfl, rfl⟩
  ids := by simp [initial]
  call := by simp [initial]
  matched := by simp [initial]

variable {s t : Connection κ}

/-- What the invariant says in a state with no running call. -/
theorem InOrder.queue_of_idle (hs : s.InOrder) (hcall : s.call = none) :
    s.handler.vCallback.map entry = s.outstanding.filter fun r ↦ r.cb.given := by
  obtain ⟨q, hq, hmap⟩ := hs.queue
  rw [hq, queuedByCall, hcall, List.append_nil, hmap]

theorem enter_inOrder (r : Request κ) (hs : s.InOrder) (hcall : s.call = none) :
    (s.enter r).InOrder := by
  have hqueue := hs.queue_of_idle hcall
  unfold enter
  split
  · exact hs
  · rename_i hid
    have hid : idReservedTwo < r.reqId := UInt16.not_le.1 hid
    split
    · rename_i hgiven
      refine ⟨⟨s.handler.vCallback, by simp [queuedByCall, CAsyncServiceHandler.push], hqueue⟩,
        hs.ids, ?_, hs.matched⟩
      intro r' p' hcall'
      simp only [Option.some.injEq, Call.entered.injEq] at hcall'
      obtain ⟨rfl, rfl⟩ := hcall'
      exact ⟨hid, hgiven, by simp [entry]⟩
    · rename_i hgiven
      refine ⟨⟨s.handler.vCallback, by simp [queuedByCall], hqueue⟩, hs.ids, ?_, hs.matched⟩
      intro r' p' hcall'
      simp only [Option.some.injEq, Call.entered.injEq] at hcall'
      obtain ⟨rfl, rfl⟩ := hcall'
      exact ⟨hid, by simpa using hgiven, by simp⟩

/-- The core takes the request: its entry now belongs to the request written last. -/
theorem written_inOrder {r : Request κ} {p : Option (RRPair κ)} (hs : s.InOrder)
    (hcall : s.call = some (.entered r p)) :
    InOrder { s with call := none, outstanding := s.outstanding ++ [r] } := by
  obtain ⟨q, hq, hmap⟩ := hs.queue
  obtain ⟨hid, hgiven, hentry⟩ := hs.call r p hcall
  refine ⟨⟨s.handler.vCallback, by simp [queuedByCall], ?_⟩, ?_, by simp, hs.matched⟩
  · rw [hq, List.map_append, hmap, List.filter_append]
    cases p with
    | none => simp [queuedByCall, hcall, hgiven]
    | some x => simp [queuedByCall, hcall, hgiven, hentry x rfl]
  · intro r' hr'
    rcases List.mem_append.1 hr' with hr' | hr'
    · exact hs.ids r' hr'
    · obtain rfl : r' = r := by simpa using hr'
      exact hid

/-- The core refuses the request. -/
theorem refused_inOrder {r : Request κ} {p : Option (RRPair κ)} (hs : s.InOrder)
    (hcall : s.call = some (.entered r p)) :
    InOrder { s with call := p.map .refused } := by
  obtain ⟨q, hq, hmap⟩ := hs.queue
  refine ⟨⟨q, ?_, hmap⟩, hs.ids, by cases p <;> simp, hs.matched⟩
  rw [hq]
  cases p <;> simp [queuedByCall, hcall]

/-- The clean-up removes the entry of the refused request and leaves the others. -/
theorem giveUp_inOrder {p : RRPair κ} (hs : s.InOrder) (hcall : s.call = some (.refused p)) :
    InOrder { s with handler := s.handler.remove false p, call := none } := by
  obtain ⟨q, hq, hmap⟩ := hs.queue
  have hq : s.handler.vCallback = q ++ [p] := by simpa [queuedByCall, hcall] using hq
  refine ⟨⟨q, ?_, hmap⟩, hs.ids, by simp, hs.matched⟩
  simp [CAsyncServiceHandler.remove, hq, CAsyncServiceHandler.removeFrom_append_self, queuedByCall]

/-- The delivery of one answer, when the id comparison is able to tell whose it is. -/
theorem deliver_inOrder {r : Request κ} {rest : List (Request κ)} (kind : AnswerKind)
    (hs : s.InOrder) (hout : s.outstanding = r :: rest)
    (hdist : s.Distinguished (.answer kind)) :
    ({ s with outstanding := rest }.deliver r kind).InOrder := by
  obtain ⟨q, hq, hmap⟩ := hs.queue
  have hids : ∀ r' ∈ rest, idReservedTwo < r'.reqId := fun r' hr' ↦
    hs.ids r' (by rw [hout]; exact List.mem_cons_of_mem _ hr')
  have hid : r.reqId ≠ idInterrupt := by
    have hlt := hs.ids r (by simp [hout])
    rintro heq
    rw [heq] at hlt
    exact absurd hlt (by decide)
  by_cases hgiven : r.cb.given = true
  · -- the queue starts with the entry of the answered request
    simp only [hout, List.filter_cons, hgiven, if_true] at hmap
    obtain ⟨p, q', rfl, hp, hq'⟩ := List.map_eq_cons_iff.1 hmap
    subst hp
    have hfront := s.handler.onAnswer_of_front (p := p) (q := q' ++ s.queuedByCall) hq rfl hid kind
    refine ⟨⟨q', ?_, hq'⟩, hids, hs.call, ?_⟩
    · simp only [deliver, entry, hfront]
      rfl
    · intro a ha
      simp only [deliver, entry, hfront, List.mem_append, List.mem_singleton] at ha
      rcases ha with ha | rfl
      · exact hs.matched a ha
      · rfl
  · -- no entry belongs to the answered request, and the front entry is not mistaken for one
    have hgiven : r.cb.given = false := by simpa using hgiven
    simp only [hout, List.filter_cons, hgiven, Bool.false_eq_true, if_false] at hmap
    have hmiss := s.handler.onAnswer_of_head_ne (hdist r (by simp [hout]) hgiven) kind
    refine ⟨⟨q, ?_, hmap⟩, hids, hs.call, ?_⟩
    · simp only [deliver, hmiss]
      exact hq
    · intro a ha
      simp only [deliver, hmiss, List.mem_append, List.mem_singleton] at ha
      rcases ha with ha | rfl
      · exact hs.matched a ha
      · exact (CResultCb.forKind_of_not_given hgiven kind).symm

/-- **The step lemma.** -/
theorem step_inOrder (a : Action κ) (hs : s.InOrder) (hdist : s.Distinguished a)
    (hstep : s.step a = some t) : t.InOrder := by
  cases a with
  | enter r =>
    simp only [step] at hstep
    split at hstep
    · rename_i hcall
      exact Option.some.inj hstep ▸ enter_inOrder r hs hcall
    · exact absurd hstep (by simp)
  | write sent =>
    simp only [step] at hstep
    split at hstep
    · rename_i r p hcall
      split at hstep
      · exact Option.some.inj hstep ▸ written_inOrder hs hcall
      · exact Option.some.inj hstep ▸ refused_inOrder hs hcall
    · exact absurd hstep (by simp)
  | giveUp =>
    simp only [step] at hstep
    split at hstep
    · rename_i p hcall
      exact Option.some.inj hstep ▸ giveUp_inOrder hs hcall
    · exact absurd hstep (by simp)
  | answer kind =>
    simp only [step] at hstep
    split at hstep
    · rename_i r rest hout
      exact Option.some.inj hstep ▸ deliver_inOrder kind hs hout hdist
    · exact absurd hstep (by simp)

/-! ### Whole runs -/

variable (rrStack : List ℕ) (fresh : ℕ)

theorem run_inOrder (as : List (Action κ)) (hs : s.InOrder)
    (hin : Machine.Within step Distinguished s as) (hrun : Machine.run step s as = some t) :
    t.InOrder :=
  Machine.invariant_of_within (fun _ a _ hu hC hstep ↦ step_inOrder a hu hC hstep) as hs hin hrun

/-- **Callbacks match answers.** In every run from a fresh handler whose answers to callback-less
requests are distinguished from the front entry, every answer runs the callback that its own request
registered for it, and an answer to a request sent without callbacks runs none. -/
theorem callbacks_matched (as : List (Action κ))
    (hin : Machine.Within step Distinguished (initial rrStack fresh) as)
    (hrun : Machine.run step (initial rrStack fresh) as = some s) :
    ∀ a ∈ s.answered, Matched a :=
  (run_inOrder as (initial_inOrder rrStack fresh) hin hrun).matched

/-- Two requests with different ids, the first without callbacks: the run stays distinguished, and
the second answer runs the callback of the second request. -/
theorem callbacks_matched_two_ids :
    Matched (⟨⟨0x2101, some 7, none, none⟩, .result,
      ⟨some ⟨0, 0x2101, some 7, none, none⟩, some 7⟩⟩ : Answer ℕ) :=
  callbacks_matched [] 0
    [.enter ⟨0x2100, none, none, none⟩, .write true, .enter ⟨0x2101, some 7, none, none⟩,
      .write true, .answer .result, .answer .result]
    (s := ⟨⟨[], [], [0], 1⟩, none, [], [⟨⟨0x2100, none, none, none⟩, .result, ⟨none, none⟩⟩,
      ⟨⟨0x2101, some 7, none, none⟩, .result,
        ⟨some ⟨0, 0x2101, some 7, none, none⟩, some 7⟩⟩]⟩) (by decide) (by rfl) _ (by decide)

/-- **Equal ids are mixed up.** A request without callbacks is followed by one with the same id that
registers a callback; the answer to the first runs the callback of the second. -/
theorem callbacks_mismatched :
    ∃ (as : List (Action ℕ)) (s : Connection ℕ),
      Machine.run step (initial [] 0) as = some s ∧ ∃ a ∈ s.answered, ¬ Matched a := by
  refine ⟨[.enter ⟨0x2100, none, none, none⟩, .write true, .enter ⟨0x2100, some 7, none, none⟩,
    .write true, .answer .result],
    ⟨⟨[], [], [0], 1⟩, none, [⟨0x2100, some 7, none, none⟩], [⟨⟨0x2100, none, none, none⟩, .result,
      ⟨some ⟨0, 0x2100, some 7, none, none⟩, some 7⟩⟩]⟩, by rfl, ?_⟩
  decide

/-! ### The condition is exact -/

/-- Answers are only ever appended. -/
theorem step_answered {a : Action κ} (hstep : s.step a = some t) : s.answered <+: t.answered := by
  cases a with
  | enter r =>
    simp only [step] at hstep
    split at hstep
    · obtain rfl := Option.some.inj hstep
      unfold enter
      split
      · exact List.prefix_refl _
      · split <;> exact List.prefix_refl _
    · exact absurd hstep (by simp)
  | write sent =>
    simp only [step] at hstep
    split at hstep
    · split at hstep <;> exact Option.some.inj hstep ▸ List.prefix_refl _
    · exact absurd hstep (by simp)
  | giveUp =>
    simp only [step] at hstep
    split at hstep
    · exact Option.some.inj hstep ▸ List.prefix_refl _
    · exact absurd hstep (by simp)
  | answer kind =>
    simp only [step] at hstep
    split at hstep
    · exact Option.some.inj hstep ▸ List.prefix_append _ _
    · exact absurd hstep (by simp)

theorem run_answered (as : List (Action κ)) (hrun : Machine.run step s as = some t) :
    s.answered <+: t.answered :=
  Machine.invariant_of_run (I := fun u ↦ s.answered <+: u.answered)
    (fun _ _ _ hu hstep ↦ hu.trans (step_answered hstep)) as (List.prefix_refl _) hrun

/-- **A violated condition shows.** A run that is not distinguished throughout delivers an answer to
a request sent without callbacks that consumes the entry of another request. -/
theorem exists_taken_of_not_within (as : List (Action κ))
    (hrun : Machine.run step (initial rrStack fresh) as = some s)
    (hout : ¬ Machine.Within step Distinguished (initial rrStack fresh) as) :
    ∃ a ∈ s.answered, a.request.cb.given = false ∧ a.outcome.taken ≠ none := by
  obtain ⟨as₁, a, as₂, u, v, rfl, hu, hin, hC, hstep, hlast⟩ :=
    Machine.exists_first_leave as hrun hout
  have hinv := run_inOrder as₁ (initial_inOrder rrStack fresh) hin hu
  cases a with
  | answer kind =>
    simp only [Distinguished, not_forall, not_not] at hC
    obtain ⟨r, hr, hgiven, p, hp, hfirst⟩ := hC
    obtain ⟨rest, hout⟩ := List.head?_eq_some_iff.1 hr
    obtain ⟨q, hq⟩ := List.head?_eq_some_iff.1 hp
    have hid : r.reqId ≠ idInterrupt := by
      have hlt := hinv.ids r (by simp [hout])
      rintro heq
      exact absurd (heq ▸ hlt) (by decide)
    have hfront := u.handler.onAnswer_of_front hq hfirst hid kind
    simp only [step, hout, Option.some.injEq] at hstep
    refine ⟨⟨r, kind, ⟨some p, p.second.forKind kind⟩⟩, (run_answered as₂ hlast).subset ?_,
      hgiven, by simp⟩
    rw [← hstep]
    simp [deliver, hfront]
  | _ => exact absurd trivial hC

/-- The run of `callbacks_mismatched`. -/
theorem exists_taken_equal_ids :
    ∃ s : Connection ℕ, Machine.run step (initial [] 0) [.enter ⟨0x2100, none, none, none⟩,
      .write true, .enter ⟨0x2100, some 7, none, none⟩, .write true, .answer .result] = some s ∧
      ∃ a ∈ s.answered, a.request.cb.given = false ∧ a.outcome.taken ≠ none :=
  ⟨_, rfl, exists_taken_of_not_within [] 0 [.enter ⟨0x2100, none, none, none⟩, .write true,
    .enter ⟨0x2100, some 7, none, none⟩, .write true, .answer .result] rfl (by decide)⟩

end Connection

end SocketPro.Client
