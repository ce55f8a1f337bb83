import SocketPro.Foundation.Monitor

/-!
# The outcome of a future

`UFuture` keeps the outcome of one request. Any number of threads call `set`, the two `setException`,
`cancel`, `get` and `get` with a time limit on one of them. All take `m_lock` for their whole body but
for two places: the two `get` give it back while they wait for `m_cv`, and `cancel` calls out to
`Interrupt` with the lock held.

**What is kept on the side.** `attempts` are the outcomes that calls have come with, in the order in
which they had the lock. The future has the first of them (`Consistent`), so that an outcome stays
once it is fixed: the list only grows.

**What goes wrong.** `get` waits once. When it comes back from `await` it takes a state that is neither
`COMPLETED` nor `EXCEPTION` for a cancellation; after a spurious wake-up the future can be pending
still. And `cancel` returns what `Interrupt` returns, after the future is cancelled.
-/

namespace SocketPro.Java.Futures

open Machine Monitor

/-! ### The errors -/

structure CServerError where
  m_ec : Int32
  message : String
  m_errWhere : String
  m_reqId : Int16
deriving DecidableEq

structure CSocketError where
  m_ec : Int32
  message : String
  m_reqId : Int16
  m_before : Bool
deriving DecidableEq

/-- `CAsyncServiceHandler.REQUEST_CANCELED`. -/
def REQUEST_CANCELED : Int32 := -1002

/-! ### The future -/

inductive FutureState
  | PENDING
  | COMPLETED
  | CANCELLED
  | EXCEPTION
deriving DecidableEq

/-- `UFuture`; `none` is null, and of the handler it matters only whether there is one. -/
structure UFuture (V : Type) where
  m_state : FutureState
  m_v : Option V
  m_reqId : Int16
  m_handler : Bool
  m_se : Option CServerError
  m_ce : Option CSocketError
deriving DecidableEq

/-- What a request can come to. -/
inductive Outcome (V : Type)
  | value (v : Option V)
  | serverError (e : CServerError)
  | socketError (e : CSocketError)
  | cancelled
deriving DecidableEq

/-- What a caller of `get` gets: a value, or what is thrown. -/
inductive Delivery (V : Type)
  | returned (v : Option V)
  | serverError (e : CServerError)
  | socketError (e : CSocketError)
  | timeout
deriving DecidableEq

variable {V : Type}

def canceled (reqId : Int16) : CSocketError := ⟨REQUEST_CANCELED, "Request canceled", reqId, false⟩

def interrupted (reqId : Int16) : CSocketError :=
  ⟨REQUEST_CANCELED, "Request interrupted", reqId, false⟩

/-- How an outcome is delivered. -/
def Outcome.delivery (reqId : Int16) : Outcome V → Delivery V
  | value v => .returned v
  | serverError e => .serverError e
  | socketError e => .socketError e
  | cancelled => .socketError (canceled reqId)

namespace UFuture

/-- The constructor. -/
def new (reqId : Int16) (h : Bool) : UFuture V := ⟨.PENDING, none, reqId, h, none, none⟩

variable (f : UFuture V)

/-- Under the lock in `set`. -/
def set (v : Option V) : UFuture V :=
  if f.m_state = .PENDING then { f with m_v := v, m_state := .COMPLETED } else f

/-- Under the lock in the two `setException`. -/
def setServerError (ex : CServerError) : UFuture V :=
  if f.m_state = .PENDING then { f with m_se := some ex, m_state := .EXCEPTION } else f

@[inherit_doc setServerError]
def setSocketError (ex : CSocketError) : UFuture V :=
  if f.m_state = .PENDING then { f with m_ce := some ex, m_state := .EXCEPTION } else f

/-- Under the lock in `cancel`, up to the call to `Interrupt`. -/
def cancel : UFuture V :=
  if f.m_state = .PENDING then { f with m_state := .CANCELLED } else f

/-- How the state is read in the two `get`, after the wait and where there is nothing to wait for. -/
def read : Delivery V :=
  match f.m_state with
  | .COMPLETED => .returned f.m_v
  | .EXCEPTION => match f.m_se, f.m_ce with
    | some se, _ => .serverError se
    | none, some ce => .socketError ce
    | none, none => .returned none
  | _ => .socketError (canceled f.m_reqId)

/-- The outcome that a future has. -/
def outcome : Option (Outcome V) :=
  match f.m_state with
  | .PENDING => none
  | .COMPLETED => some (.value f.m_v)
  | .CANCELLED => some .cancelled
  | .EXCEPTION => match f.m_se with
    | some se => some (.serverError se)
    | none => f.m_ce.map .socketError

end UFuture

/-- A future and the outcomes that calls have come with so far. -/
structure Shared (V : Type) where
  future : UFuture V
  attempts : List (Outcome V)

/-- A call comes with an outcome. -/
def Shared.attempt (s : Shared V) (o : Outcome V) (f : UFuture V) : Shared V :=
  ⟨f, s.attempts ++ [o]⟩

/-! ### The threads -/

/-- Where the lock has been taken. -/
inductive Point (V : Type)
  | set (v : Option V)
  | setServerError (ex : CServerError)
  | setSocketError (ex : CSocketError)
  | cancel (mayInterruptIfRunning : Bool)
  /-- In `cancel`, after `Interrupt` returned. -/
  | interruptAnswered (n : ℕ) (answer : Bool)
  | get
  | getTimed
  /-- In the two `get`, after `await`. -/
  | awake (w : Wake)
  | awakeTimed (w : Wake)

/-- What a call came to; a `cancel` is the `n`-th call that came with an outcome. -/
inductive Result (V : Type)
  | set
  | cancel (answer : Bool) (n : ℕ)
  | get (d : Delivery V)
  | getTimed (d : Delivery V)
deriving DecidableEq

/-- The methods of `UFuture`. -/
def body : Point V → Shared V → Shared V × Bool × Next (Point V) Bool (Result V)
  | .set v, s => (s.attempt (.value v) (s.future.set v), true, .done .set)
  | .setServerError ex, s =>
    (s.attempt (.serverError ex) (s.future.setServerError ex), true, .done .set)
  | .setSocketError ex, s =>
    (s.attempt (.socketError ex) (s.future.setSocketError ex), true, .done .set)
  | .cancel mayInterruptIfRunning, s =>
    let n := s.attempts.length
    let t := s.attempt .cancelled s.future.cancel
    if s.future.m_state = .PENDING then
      if mayInterruptIfRunning && s.future.m_handler then (t, false, .call (.interruptAnswered n))
      else (t, true, .done (.cancel true n))
    else (t, true, .done (.cancel false n))
  | .interruptAnswered n answer, s => (s, true, .done (.cancel answer n))
  | .get, s =>
    if s.future.m_state = .PENDING then
      -- without a time limit there is no time-out
      (s, false, .wait fun w ↦ if w = .timedOut then none else some (.awake w))
    else (s, false, .done (.get s.future.read))
  | .getTimed, s =>
    if s.future.m_state = .PENDING then (s, false, .wait fun w ↦ some (.awakeTimed w))
    else (s, false, .done (.getTimed s.future.read))
  | .awake w, s => (s, false, .done (.get (match w with
    | .interrupted => .socketError (interrupted s.future.m_reqId)
    | _ => s.future.read)))
  | .awakeTimed w, s => (s, false, .done (.getTimed (match w with
    | .timedOut => .timeout
    | .interrupted => .socketError (interrupted s.future.m_reqId)
    | _ => s.future.read)))

def program : Program (Shared V) (Point V) Bool (Result V) where
  start
    | .set _ | .setServerError _ | .setSocketError _ | .cancel _ | .get | .getTimed => true
    | _ => false
  body := body

abbrev Threads (ι V : Type) := State ι (Shared V) (Point V) Bool (Result V)

/-- A new future, before the first call. -/
def start (ι : Type) (V : Type) (reqId : Int16) (h : Bool) : Threads ι V :=
  State.initial ⟨.new reqId h, []⟩

/-! ### One outcome -/

/-- What a result says: a `get` delivers the outcome that was fixed first, one with a time limit also
a time-out, and a `cancel` is told whether it was the first. -/
def Result.Right (s : Shared V) : Result V → Prop
  | set => True
  | cancel answer n => s.attempts[n]? = some .cancelled ∧ (answer = true ↔ n = 0)
  | get d => (s.attempts.head?.map fun o ↦ o.delivery s.future.m_reqId) = some d
  | getTimed d => d = .timeout ∨ (s.attempts.head?.map fun o ↦ o.delivery s.future.m_reqId) = some d

/-- The first call that came with an outcome fixed it, and all results are right. -/
structure OneOutcome {ι : Type} (s : Threads ι V) : Prop where
  outcome : s.shared.future.outcome = s.shared.attempts.head?
  log : ∀ r ∈ s.log, r.Right s.shared

/-- Where a method goes wrong: a wake-up for no reason while the future is pending, and an `Interrupt`
that fails. -/
def Misled : Point V → Shared V → Prop
  | .awake .spurious, s | .awakeTimed .spurious, s => s.future.m_state = .PENDING
  | .interruptAnswered _ answer, _ => answer = false
  | _, _ => False

/-- A thread that was interrupted while it waited. -/
def Interrupted : Point V → Prop
  | .awake w | .awakeTimed w => w = .interrupted
  | _ => False

/-- Where a method may be performed. -/
def Allowed (l : Point V) (s : Shared V) : Prop := ¬Misled l s ∧ ¬Interrupted l

instance : DecidableRel (Misled : Point V → Shared V → Prop)
  | .awake .spurious, s | .awakeTimed .spurious, s =>
    inferInstanceAs (Decidable (s.future.m_state = .PENDING))
  | .interruptAnswered _ answer, _ => inferInstanceAs (Decidable (answer = false))
  | .awake .signalled, _ | .awake .timedOut, _ | .awake .interrupted, _
  | .awakeTimed .signalled, _ | .awakeTimed .timedOut, _ | .awakeTimed .interrupted, _
  | .set _, _ | .setServerError _, _ | .setSocketError _, _ | .cancel _, _ | .get, _ | .getTimed, _ =>
    .isFalse id

instance : DecidablePred (Interrupted : Point V → Prop)
  | .awake w | .awakeTimed w => inferInstanceAs (Decidable (w = .interrupted))
  | .set _ | .setServerError _ | .setSocketError _ | .cancel _ | .interruptAnswered .. | .get
  | .getTimed => .isFalse id

instance : DecidableRel (Allowed : Point V → Shared V → Prop) := fun _ _ ↦ instDecidableAnd

/-! ### The invariant -/

/-- The future has the outcome that came first. -/
structure Consistent (s : Shared V) : Prop where
  outcome : s.future.outcome = s.attempts.head?
  pending : s.future.m_state = .PENDING ↔ s.attempts = []
  errors : s.future.m_state = .PENDING → s.future.m_se = none ∧ s.future.m_ce = none

namespace Consistent

variable {s : Shared V}

/-- A call with the outcome `o` fixes it if the future is pending, and else changes nothing. -/
theorem attempt (h : Consistent s) {o : Outcome V} {f : UFuture V}
    (hfix : s.future.m_state = .PENDING → f.outcome = some o ∧ f.m_state ≠ .PENDING)
    (hstay : s.future.m_state ≠ .PENDING → f = s.future) : Consistent (s.attempt o f) := by
  by_cases hpending : s.future.m_state = .PENDING
  · obtain ⟨houtcome, hstate⟩ := hfix hpending
    have hnil : s.attempts = [] := h.pending.1 hpending
    exact ⟨by simp [Shared.attempt, hnil, houtcome], by simp [Shared.attempt, hstate],
      fun hf ↦ absurd hf hstate⟩
  · obtain rfl := hstay hpending
    have hne : s.attempts ≠ [] := fun hnil ↦ hpending (h.pending.2 hnil)
    refine ⟨?_, by simp [Shared.attempt, hpending], fun hf ↦ absurd hf hpending⟩
    rw [Shared.attempt, List.head?_append_of_ne_nil _ hne, ← h.outcome]

theorem set (h : Consistent s) (v : Option V) :
    Consistent (s.attempt (.value v) (s.future.set v)) :=
  h.attempt (fun hp ↦ by simp [UFuture.set, hp, UFuture.outcome]) fun hp ↦ by
    simp [UFuture.set, hp]

theorem setServerError (h : Consistent s) (ex : CServerError) :
    Consistent (s.attempt (.serverError ex) (s.future.setServerError ex)) :=
  h.attempt (fun hp ↦ by simp [UFuture.setServerError, hp, UFuture.outcome]) fun hp ↦ by
    simp [UFuture.setServerError, hp]

theorem setSocketError (h : Consistent s) (ex : CSocketError) :
    Consistent (s.attempt (.socketError ex) (s.future.setSocketError ex)) :=
  h.attempt (fun hp ↦ by simp [UFuture.setSocketError, hp, UFuture.outcome, (h.errors hp).1])
    fun hp ↦ by simp [UFuture.setSocketError, hp]

theorem cancel (h : Consistent s) : Consistent (s.attempt .cancelled s.future.cancel) :=
  h.attempt (fun hp ↦ by simp [UFuture.cancel, hp, UFuture.outcome]) fun hp ↦ by
    simp [UFuture.cancel, hp]

/-- **What is read is the outcome**, once there is one. -/
theorem read (h : Consistent s) (hne : s.attempts ≠ []) :
    (s.attempts.head?.map fun o ↦ o.delivery s.future.m_reqId) = some s.future.read := by
  have hstate : s.future.m_state ≠ .PENDING := fun hp ↦ hne (h.pending.1 hp)
  have hsome : s.future.outcome.isSome := by
    rw [h.outcome]
    exact List.isSome_head?.2 hne
  rw [← h.outcome]
  rw [UFuture.outcome] at hsome ⊢
  rw [UFuture.read]
  cases hm : s.future.m_state with
  | PENDING => exact absurd hm hstate
  | COMPLETED => rfl
  | CANCELLED => rfl
  | EXCEPTION =>
    simp only [hm] at hsome ⊢
    cases hse : s.future.m_se with
    | some se => rfl
    | none =>
      simp only [hse] at hsome ⊢
      obtain ⟨ce, hce⟩ := Option.isSome_iff_exists.1 ((Option.isSome_map).symm.trans hsome)
      rw [hce]
      rfl

end Consistent

/-- Between two bodies of a thread, others may have come with outcomes. -/
def Rely (s t : Shared V) : Prop :=
  s.attempts <+: t.attempts ∧ t.future.m_reqId = s.future.m_reqId

namespace Rely

variable {s t u : Shared V}

theorem refl (s : Shared V) : Rely s s := ⟨List.prefix_refl _, rfl⟩

theorem trans (h : Rely s t) (h' : Rely t u) : Rely s u :=
  ⟨h.1.trans h'.1, h'.2.trans h.2⟩

/-- An outcome stays. -/
theorem head? (h : Rely s t) (hne : s.attempts ≠ []) : t.attempts.head? = s.attempts.head? := by
  obtain ⟨l, hl⟩ := h.1
  rw [← hl, List.head?_append_of_ne_nil _ hne]

theorem delivery (h : Rely s t) {d : Delivery V}
    (hd : (s.attempts.head?.map fun o ↦ o.delivery s.future.m_reqId) = some d) :
    (t.attempts.head?.map fun o ↦ o.delivery t.future.m_reqId) = some d := by
  have hne : s.attempts ≠ [] := by
    rintro hnil
    simp [hnil] at hd
  rw [h.2, h.head? hne, hd]

theorem attempt {f : UFuture V} (o : Outcome V) (hf : f.m_reqId = s.future.m_reqId) :
    Rely s (s.attempt o f) :=
  ⟨List.prefix_append _ _, hf⟩

end Rely

theorem Result.Right.stable {r : Result V} {s t : Shared V} (h : Rely s t) (hr : r.Right s) :
    r.Right t := by
  cases r with
  | set => trivial
  | cancel answer n =>
    obtain ⟨l, hl⟩ := h.1
    refine ⟨?_, hr.2⟩
    rw [← hl, List.getElem?_append_left (List.getElem?_eq_some_iff.1 hr.1).1]
    exact hr.1
  | get d => exact h.delivery hr
  | getTimed d => exact hr.imp_right h.delivery

/-- What holds where a method takes the lock again: a signal is sent after an outcome is fixed, only a
wait with a limit ends by a time-out, and only the first call to come with an outcome calls
`Interrupt`. -/
def Pre : Point V → Shared V → Prop
  | .awake .signalled, s | .awakeTimed .signalled, s => s.attempts ≠ []
  | .awake .timedOut, _ => False
  | .interruptAnswered n _, s => n = 0 ∧ s.attempts.head? = some .cancelled
  | _, _ => True

theorem Pre.stable {l : Point V} {s t : Shared V} (h : Rely s t) (hl : Pre l s) : Pre l t := by
  have hne (hs : s.attempts ≠ []) : t.attempts ≠ [] := fun ht ↦ hs (List.prefix_nil.1 (ht ▸ h.1))
  cases l with
  | awake w => cases w <;> first | exact hne hl | exact hl
  | awakeTimed w => cases w <;> first | exact hne hl | trivial
  | interruptAnswered n answer =>
    obtain ⟨hn, hhead⟩ := hl
    exact ⟨hn, (h.head? fun hnil ↦ by simp [hnil] at hhead).trans hhead⟩
  | _ => trivial

theorem reqId_set (f : UFuture V) (v : Option V) : (f.set v).m_reqId = f.m_reqId := by
  rw [UFuture.set]
  split <;> rfl

theorem reqId_setServerError (f : UFuture V) (ex : CServerError) :
    (f.setServerError ex).m_reqId = f.m_reqId := by
  rw [UFuture.setServerError]
  split <;> rfl

theorem reqId_setSocketError (f : UFuture V) (ex : CSocketError) :
    (f.setSocketError ex).m_reqId = f.m_reqId := by
  rw [UFuture.setSocketError]
  split <;> rfl

theorem reqId_cancel (f : UFuture V) : f.cancel.m_reqId = f.m_reqId := by
  rw [UFuture.cancel]
  split <;> rfl

/-- What a `cancel` is told, by whether it was the first. -/
theorem right_cancel {s : Shared V} (h : Consistent s) {answer : Bool}
    (hanswer : answer = true ↔ s.future.m_state = .PENDING) :
    (Result.cancel answer s.attempts.length).Right (s.attempt .cancelled s.future.cancel) := by
  refine ⟨by simp [Shared.attempt], ?_⟩
  rw [hanswer, h.pending, List.length_eq_zero_iff]

/-- What each method does with the lock held. -/
theorem body_right {l : Point V} {s t : Shared V} {signals : Bool}
    {next : Next (Point V) Bool (Result V)} (h : Consistent s) (hpre : Pre l s)
    (hallowed : Allowed l s) (hbody : body l s = (t, signals, next)) :
    Consistent t ∧ Rely s t ∧ (signals = true → t.attempts ≠ []) ∧
      next.Leads Rely Pre (fun r u ↦ r.Right u) (fun u ↦ u.attempts ≠ []) t := by
  have hattempt (o : Outcome V) (f : UFuture V) : (s.attempt o f).attempts ≠ [] :=
    List.append_ne_nil_of_right_ne_nil _ (List.cons_ne_nil _ _)
  cases l with
  | set v =>
    cases hbody
    exact ⟨h.set v, .attempt _ (reqId_set ..), fun _ ↦ hattempt _ _, trivial⟩
  | setServerError ex =>
    cases hbody
    exact ⟨h.setServerError ex, .attempt _ (reqId_setServerError ..), fun _ ↦ hattempt _ _, trivial⟩
  | setSocketError ex =>
    cases hbody
    exact ⟨h.setSocketError ex, .attempt _ (reqId_setSocketError ..), fun _ ↦ hattempt _ _, trivial⟩
  | cancel mayInterruptIfRunning =>
    simp only [body] at hbody
    have hcancel := h.cancel
    have hrely : Rely s (s.attempt .cancelled s.future.cancel) := .attempt _ (reqId_cancel _)
    split_ifs at hbody with hpending hcall
    · cases hbody
      have hnil : s.attempts = [] := h.pending.1 hpending
      exact ⟨hcancel, hrely, fun hs ↦ absurd hs Bool.false_ne_true, fun b ↦
        ⟨by simp [hnil], by simp [Shared.attempt, hnil]⟩⟩
    · cases hbody
      exact ⟨hcancel, hrely, fun _ ↦ hattempt _ _, right_cancel h (by simp [hpending])⟩
    · cases hbody
      exact ⟨hcancel, hrely, fun _ ↦ hattempt _ _, right_cancel h (by simp [hpending])⟩
  | interruptAnswered n answer =>
    cases hbody
    obtain ⟨rfl, hhead⟩ := hpre
    have hanswer : answer = true := by
      cases answer
      · exact absurd rfl hallowed.1
      · rfl
    exact ⟨h, .refl s, fun _ hnil ↦ by simp [hnil] at hhead,
      List.head?_eq_getElem?.symm.trans hhead, by simp [hanswer]⟩
  | get =>
    simp only [body] at hbody
    split_ifs at hbody with hpending
    · cases hbody
      refine ⟨h, .refl s, fun hs ↦ absurd hs Bool.false_ne_true, fun w l' hl u _ htold ↦ ?_⟩
      cases w <;> cases hl
      · exact htold rfl
      · trivial
      · trivial
    · cases hbody
      exact ⟨h, .refl s, fun hs ↦ absurd hs Bool.false_ne_true,
        h.read fun hnil ↦ hpending (h.pending.2 hnil)⟩
  | getTimed =>
    simp only [body] at hbody
    split_ifs at hbody with hpending
    · cases hbody
      refine ⟨h, .refl s, fun hs ↦ absurd hs Bool.false_ne_true, fun w l' hl u _ htold ↦ ?_⟩
      cases w <;> cases hl
      · exact htold rfl
      · trivial
      · trivial
      · trivial
    · cases hbody
      exact ⟨h, .refl s, fun hs ↦ absurd hs Bool.false_ne_true,
        .inr (h.read fun hnil ↦ hpending (h.pending.2 hnil))⟩
  | awake w =>
    cases hbody
    refine ⟨h, .refl s, fun hs ↦ absurd hs Bool.false_ne_true, ?_⟩
    cases w with
    | signalled => exact h.read hpre
    | spurious => exact h.read fun hnil ↦ hallowed.1 (h.pending.2 hnil)
    | timedOut => exact hpre.elim
    | interrupted => exact absurd rfl hallowed.2
  | awakeTimed w =>
    cases hbody
    refine ⟨h, .refl s, fun hs ↦ absurd hs Bool.false_ne_true, ?_⟩
    cases w with
    | signalled => exact .inr (h.read hpre)
    | spurious => exact .inr (h.read fun hnil ↦ hallowed.1 (h.pending.2 hnil))
    | timedOut => exact .inl rfl
    | interrupted => exact absurd rfl hallowed.2

/-- **The proof**, by the rules for a lock with one condition. -/
def correct : Proof (program (V := V)) where
  Allowed := Allowed
  Inv := Consistent
  Rely := Rely
  Pre := Pre
  Post r s := r.Right s
  Told s := s.attempts ≠ []
  refl := .refl
  trans := .trans
  pre_stable := .stable
  post_stable h hr := hr.stable h
  pre_start {l s} hl := by cases l <;> trivial
  body h hpre hallowed hbody := body_right h hpre hallowed hbody

variable {ι : Type} [DecidableEq ι]

/-- A thread that is misled is about to return what is not right. -/
theorem wrong_of_misled {s t : Threads ι V} (h : correct.Good s) {i : ι} {l : Point V}
    (hi : s.threads i = .holding l) (hmisled : Misled l s.shared)
    (hstep : s.step program (.perform i) = some t) :
    ∃ r, t.threads i = .leaving r ∧ ¬r.Right t.shared := by
  have hinv : Consistent s.shared := h.inv
  have hpre : Pre l s.shared := by
    have hknows := h.threads i
    rw [hi] at hknows
    exact hknows
  have hnone (hp : s.shared.future.m_state = .PENDING) : s.shared.attempts.head? = none := by
    rw [hinv.pending.1 hp]
    rfl
  simp only [State.step, hi] at hstep
  cases hstep
  cases l with
  | awake w =>
    cases w <;> try exact hmisled.elim
    refine ⟨_, Function.update_self .., fun hright ↦ ?_⟩
    have hsome : Option.map _ s.shared.attempts.head? = some _ := hright
    rw [hnone hmisled] at hsome
    cases hsome
  | awakeTimed w =>
    cases w <;> try exact hmisled.elim
    refine ⟨_, Function.update_self .., fun hright ↦ ?_⟩
    rcases hright with htimeout | hsome
    · have hread : s.shared.future.read = .timeout := htimeout
      rw [UFuture.read, show s.shared.future.m_state = .PENDING from hmisled] at hread
      cases hread
    · have hsome : Option.map _ s.shared.attempts.head? = some _ := hsome
      rw [hnone hmisled] at hsome
      cases hsome
  | interruptAnswered n answer =>
    refine ⟨_, Function.update_self .., fun hright ↦ ?_⟩
    have hanswer : answer = true := hright.2.2 hpre.1
    exact Bool.false_ne_true ((show answer = false from hmisled).symm.trans hanswer)
  | _ => exact hmisled.elim

/-- **A future has one outcome** in every run in which no thread that waits for a pending future wakes
up for no reason, none is interrupted, and `Interrupt` does not fail: in every state reached the first
call that came with an outcome fixed it for good, and every result is right. Where a thread is
misled, it returns what is not right. -/
theorem oneOutcome_of_within {reqId : Int16} {handler : Bool} {as : List (Monitor.Action ι (Point V) Bool)}
    {s : Threads ι V}
    (hin : Within (State.step program) (Keeps Allowed) (start ι V reqId handler) as)
    (hrun : run (State.step program) (start ι V reqId handler) as = some s) :
    OneOutcome s ∧
      (∀ bs t, Within (State.step program) (Keeps Allowed) s bs →
        run (State.step program) s bs = some t → s.shared.future.outcome.isSome →
        t.shared.future.outcome = s.shared.future.outcome) ∧
      ∀ i l t, s.threads i = .holding l → Misled l s.shared →
        s.step program (.perform i) = some t → ∃ r, t.threads i = .leaving r ∧ ¬r.Right t.shared := by
  have hstart : Consistent (⟨.new reqId handler, []⟩ : Shared V) := by
    constructor <;> simp [UFuture.new, UFuture.outcome]
  have hgood : correct.Good s := (Proof.good_of_within (Proof.good_initial hstart) hin hrun).1
  have hinv : Consistent s.shared := hgood.inv
  refine ⟨⟨hinv.outcome, hgood.log⟩, fun bs t hin' hrun' hsome ↦ ?_, fun i l t ↦ wrong_of_misled hgood⟩
  obtain ⟨hgood', hrely⟩ := Proof.good_of_within hgood hin' hrun'
  have hinv' : Consistent t.shared := hgood'.inv
  rw [hinv.outcome] at hsome ⊢
  rw [hinv'.outcome]
  exact Rely.head? hrely (List.isSome_head?.1 hsome)

/-- Of two threads that wait, one has a time-out and the other is signalled by a `cancel`; a `set`
comes too late. -/
def cancelledRun : List (Monitor.Action ℕ (Point ℕ) Bool) :=
  [.enter 0 .get, .acquire 0, .perform 0, .enter 1 .getTimed, .acquire 1, .perform 1,
    .wake 1 .timedOut, .enter 2 (.cancel true), .acquire 2, .perform 2, .enter 3 (.set (some 5)),
    .answer 2 true, .perform 2, .release 2, .acquire 3, .perform 3, .release 3, .acquire 0,
    .perform 0, .release 0, .acquire 1, .perform 1, .release 1]

theorem oneOutcome_cancelled : ∃ s,
    run (State.step program) (start ℕ ℕ 7 true) cancelledRun = some s ∧
      s.log = [.cancel true 0, .set, .get (.socketError (canceled 7)), .getTimed .timeout] ∧
      OneOutcome s :=
  have hin : Within (State.step program) (Keeps Allowed) (start ℕ ℕ 7 true) cancelledRun := by
    decide
  ⟨_, rfl, rfl, (oneOutcome_of_within hin rfl).1⟩

/-- A thread that wakes up for no reason throws a cancellation though nobody cancelled, and a `cancel`
whose `Interrupt` fails returns false though it cancelled. -/
theorem pending_not_waited_for :
    (∃ s, run (State.step program) (start ℕ ℕ 7 true)
        [.enter 0 .get, .acquire 0, .perform 0, .wake 0 .spurious, .acquire 0, .perform 0,
          .release 0] = some s ∧
      s.shared.future.m_state = .PENDING ∧ s.log = [.get (.socketError (canceled 7))] ∧
      ¬OneOutcome s) ∧
    ∃ s, run (State.step program) (start ℕ ℕ 7 true)
        [.enter 0 (.cancel true), .acquire 0, .perform 0, .answer 0 false, .perform 0,
          .release 0] = some s ∧
      s.shared.future.m_state = .CANCELLED ∧ s.log = [.cancel false 0] ∧ ¬OneOutcome s := by
  refine ⟨⟨_, rfl, rfl, rfl, fun h ↦ ?_⟩, ⟨_, rfl, rfl, rfl, fun h ↦ ?_⟩⟩
  · exact nomatch h.log _ (List.mem_singleton_self _)
  · exact absurd ((h.log _ (List.mem_singleton_self _)).2.2 rfl) Bool.false_ne_true

end SocketPro.Java.Futures
