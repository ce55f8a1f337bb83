import SocketPro.Foundation.Bytes
import SocketPro.Client.CallbackPool

/-!
# Aborting a job

`StartJob` and `AbortJob` of `CQueueImpl`. `StartJob` notes how many callbacks `m_vCallback` holds;
`AbortJob` takes what has come since for the number of callbacks to erase, and `EraseBack` is to
discard that many at the end of `m_vCallback`. Both run with `m_cs` held.

Two things go wrong. The loop of `EraseBack` runs from `total - count` until it meets `count`
instead of `total`; and an answer to an earlier request that comes in between makes `m_vCallback`
shorter, so that the difference counts too few callbacks, or is negative and, without a sign, large.

**When the job is aborted exactly** (`abortJob_exact_iff`): all callbacks from before the job have
been taken by answers, and either there were none or there were more than have been queued since.
-/

namespace SocketPro.Client

open Bytes

variable {κ : Type*}

/-- A handler after a call of `EraseBack`, and the functions that the call has called. -/
structure Erased (κ : Type*) where
  handler : CAsyncServiceHandler κ
  discarded : List (Notice κ)
deriving DecidableEq

namespace CAsyncServiceHandler

variable (h : CAsyncServiceHandler κ)

/-- The entries that the loop of `EraseBack` passes, of those from `start` on; `none` when it reads
behind the last one. -/
def eraseLoop (count : ℕ) : ℕ → List (RRPair κ) → Option (List (RRPair κ))
  | start, [] => if start ≠ count then none else some []
  | start, p :: q => if start ≠ count then (eraseLoop count (start + 1) q).map (p :: ·) else some []

/-- `EraseBack(count)`. -/
def eraseBack (count : ℕ) : Option (Erased κ) :=
  let total := h.vCallback.length
  let count := min count total
  (eraseLoop count (total - count) (h.vCallback.drop (total - count))).map fun passed ↦
    { handler := { h with
        vCallback := h.vCallback.take (total - count)
        rrStack := (passed.map RRPair.addr).reverse ++ h.rrStack }
      discarded := passed.filterMap fun p ↦ p.second.discard true }

end CAsyncServiceHandler

/-- A client queue and the handler of its socket. -/
structure CQueueImpl (κ : Type*) where
  handler : CAsyncServiceHandler κ
  m_nQIndex : ℕ

namespace CQueueImpl

open CAsyncServiceHandler

variable (c : CQueueImpl κ)

/-- `StartJob`. -/
def startJob : CQueueImpl κ := { c with m_nQIndex := c.handler.vCallback.length }

/-- `AbortJob`, where `ok` is what the core returns. The difference is one of unsigned numbers. -/
def abortJob (ok : Bool) : Option (Erased κ) :=
  let aborted := sub32 c.handler.vCallback.length c.m_nQIndex
  if ok then c.handler.eraseBack aborted else some ⟨c.handler, []⟩

/-- `SendRequest` of a request that the core takes. -/
def send (reqId : UInt16) (cb : CResultCb κ) : CQueueImpl κ :=
  if reqId ≤ idReservedTwo then c
  else if cb.given then
    let (p, h) := c.handler.reuse reqId cb
    { c with handler := h.push false p }
  else c

/-- An answer comes in. -/
def answer (kind : AnswerKind) (random : Bool) (reqId : UInt16) : CQueueImpl κ :=
  { c with handler := (c.handler.onAnswer kind random reqId).2 }

/-! ### During a job -/

/-- `before` were the callbacks when the job was started; `remaining` of them are not yet answered,
and `since` have come behind them. -/
structure InJob (before remaining since : List (RRPair κ)) : Prop where
  queued : c.handler.vCallback = remaining ++ since
  unanswered : remaining.Sublist before
  started : c.m_nQIndex = before.length

variable {c} {before remaining since : List (RRPair κ)}

/-- Requests of the job come behind all others. -/
theorem InJob.send (h : c.InJob before remaining since) (reqId : UInt16) (cb : CResultCb κ) :
    ∃ queued, (c.send reqId cb).InJob before remaining (since ++ queued) := by
  have hsame : c.InJob before remaining (since ++ []) := by rwa [List.append_nil]
  unfold CQueueImpl.send
  split
  · exact ⟨[], hsame⟩
  split
  · refine ⟨[(c.handler.reuse reqId cb).1], ?_, h.unanswered, h.started⟩
    show (c.handler.reuse reqId cb).2.vCallback ++ _ = _
    rw [reuse_vCallback, ← List.append_assoc]
    exact congrArg (· ++ _) h.queued
  · exact ⟨[], hsame⟩

theorem popById_append {reqId : UInt16} {q q' r : List (RRPair κ)} {p : RRPair κ}
    (h : popById reqId q = some (p, q')) : popById reqId (q ++ r) = some (p, q' ++ r) := by
  induction q generalizing q' with
  | nil => cases h
  | cons it q ih =>
    rw [popById] at h
    rw [List.cons_append, popById]
    split at h
    · next heq =>
      cases h
      rw [if_pos heq]
    · next hne =>
      obtain ⟨⟨p', q''⟩, hpop, hr⟩ := Option.map_eq_some_iff.1 h
      cases hr
      rw [if_neg hne, ih hpop]
      rfl

theorem popById_sublist {reqId : UInt16} {q q' : List (RRPair κ)} {p : RRPair κ}
    (h : popById reqId q = some (p, q')) : q'.Sublist q := by
  induction q generalizing q' with
  | nil => cases h
  | cons it q ih =>
    rw [popById] at h
    split at h
    · cases h
      exact .cons _ (.refl _)
    · obtain ⟨⟨p', q''⟩, hpop, hr⟩ := Option.map_eq_some_iff.1 h
      cases hr
      exact (ih hpop).cons_cons it

/-- The answer to an earlier request takes one of the earlier callbacks. -/
theorem InJob.answer (h : c.InJob before remaining since) {kind : AnswerKind} {random : Bool}
    {reqId : UInt16} {p : RRPair κ} {h' : CAsyncServiceHandler κ}
    (hid : ¬ (kind = .result ∧ reqId = idInterrupt))
    (hlook : { c.handler with vCallback := remaining }.getAsyncResultHandler random reqId =
      (some p, h')) :
    (c.answer kind random reqId).InJob before h'.vCallback since := by
  have hwhole : c.handler.getAsyncResultHandler random reqId =
      (some p, { c.handler with vCallback := h'.vCallback ++ since }) ∧
        h'.vCallback.Sublist remaining := by
    unfold getAsyncResultHandler at hlook ⊢
    rw [h.queued]
    cases random with
    | true =>
      simp only [if_true] at hlook ⊢
      split at hlook
      · next p' q hpop =>
        cases hlook
        rw [popById_append hpop]
        exact ⟨rfl, popById_sublist hpop⟩
      · cases hlook
    | false =>
      simp only [Bool.false_eq_true, if_false] at hlook ⊢
      cases remaining with
      | nil => cases hlook
      | cons p' q =>
        dsimp only at hlook
        split at hlook
        · next hfirst =>
          cases hlook
          exact ⟨if_pos hfirst, .cons _ (.refl _)⟩
        · cases hlook
  have hanswer : (c.handler.onAnswer kind random reqId).2 =
      { c.handler with vCallback := h'.vCallback ++ since }.recycle p := by
    cases kind with
    | result =>
      have hne : reqId ≠ idInterrupt := fun heq ↦ hid ⟨rfl, heq⟩
      simp only [onAnswer, onRR, if_neg hne, hwhole.1]
    | exception => simp only [onAnswer, onSE, hwhole.1]
  refine ⟨?_, hwhole.2.trans h.unanswered, h.started⟩
  rw [CQueueImpl.answer, hanswer, recycle_vCallback]

/-! ### The loop of `EraseBack` -/

/-- The loop passes the entries up to `count`, if there are so many. -/
theorem eraseLoop_of_le {count start : ℕ} {q : List (RRPair κ)} (hle : start ≤ count)
    (hlen : count ≤ start + q.length) :
    eraseLoop count start q = some (q.take (count - start)) := by
  induction q generalizing start with
  | nil =>
    obtain rfl : start = count := le_antisymm hle hlen
    rw [eraseLoop, if_neg (not_not.2 rfl), List.take_nil]
  | cons p q ih =>
    rw [eraseLoop]
    rw [List.length_cons] at hlen
    split
    · next hne =>
      have hsub : count - start = (count - (start + 1)) + 1 := by omega
      rw [ih (by omega) (by omega), hsub, List.take_succ_cons, Option.map_some]
    · next heq =>
      rw [not_not.1 heq, Nat.sub_self, List.take_zero]

/-- From behind `count` on, the loop does not end before it has left the entries. -/
theorem eraseLoop_of_lt {count start : ℕ} (q : List (RRPair κ)) (hlt : count < start) :
    eraseLoop count start q = none := by
  induction q generalizing start with
  | nil => exact if_pos (Nat.ne_of_gt hlt)
  | cons p q ih => rw [eraseLoop, if_pos (Nat.ne_of_gt hlt), ih (by omega), Option.map_none]

/-! ### Aborting -/

/-- The job is aborted exactly: each callback that has been queued since it was started is discarded
once and its pair is recycled once, in their order, and the others are as they were. -/
def AbortsExactly (c : CQueueImpl κ) (remaining since : List (RRPair κ)) : Prop :=
  ∃ e, c.abortJob true = some e ∧
    e.discarded = since.filterMap (fun p ↦ p.second.discard true) ∧
    e.handler.rrStack = (since.map RRPair.addr).reverse ++ c.handler.rrStack ∧
    e.handler.vCallback = remaining

/-- As many callbacks as the job has are found when no answer has come in between; the loop passes
all of them only if there are no others. -/
theorem abortsExactly_of_all_unanswered (h : c.InJob before before since)
    (hlt : before.length + since.length < 2 ^ 29) :
    c.AbortsExactly before since ↔ before = [] := by
  have hlen : c.handler.vCallback.length = before.length + since.length := by
    rw [h.queued, List.length_append]
  have habort : c.abortJob true =
      (eraseLoop since.length before.length since).map fun passed ↦
        { handler := { c.handler with
            vCallback := before
            rrStack := (passed.map RRPair.addr).reverse ++ c.handler.rrStack }
          discarded := passed.filterMap fun p ↦ p.second.discard true } := by
    have hsub : sub32 (before.length + since.length) c.m_nQIndex = since.length := by
      rw [h.started, sub32_of_le (Nat.le_add_right _ _) (by omega), Nat.add_sub_cancel_left]
    have hmin : min since.length (before.length + since.length) = since.length :=
      Nat.min_eq_left (Nat.le_add_left _ _)
    simp only [abortJob, eraseBack, hlen, hsub, hmin, if_true, Nat.add_sub_cancel]
    rw [h.queued, List.drop_left, List.take_left]
  constructor
  · rintro ⟨e, he, -, hstack, -⟩
    rw [habort] at he
    obtain ⟨passed, hpassed, rfl⟩ := Option.map_eq_some_iff.1 he
    have hcount : passed.length = since.length := by
      have hlength := congrArg List.length hstack
      simp only [List.length_append, List.length_reverse, List.length_map] at hlength
      omega
    by_contra hne
    have hpos : 0 < before.length := List.length_pos_iff.2 hne
    rcases Nat.lt_or_ge since.length before.length with hbehind | hle
    · rw [eraseLoop_of_lt _ hbehind] at hpassed
      cases hpassed
    · rw [eraseLoop_of_le hle (Nat.le_add_left _ _)] at hpassed
      obtain rfl := Option.some.inj hpassed
      rw [List.length_take] at hcount
      omega
  · rintro rfl
    have hloop : eraseLoop since.length 0 since = some since := by
      rw [eraseLoop_of_le (Nat.zero_le _) (Nat.zero_add _).ge, Nat.sub_zero, List.take_length]
    exact ⟨_, habort.trans (congrArg _ hloop), rfl, rfl, rfl⟩

/-- With as many answers as leave fewer callbacks than there were, the difference is negative, and
everything is discarded. -/
theorem abortJob_of_length_lt (h : c.InJob before remaining since)
    (hless : remaining.length + since.length < before.length) (hlt : before.length < 2 ^ 29) :
    c.abortJob true = some
      { handler := { c.handler with
          vCallback := []
          rrStack := ((remaining ++ since).map RRPair.addr).reverse ++ c.handler.rrStack }
        discarded := (remaining ++ since).filterMap fun p ↦ p.second.discard true } := by
  have hlen : c.handler.vCallback.length = remaining.length + since.length := by
    rw [h.queued, List.length_append]
  have hmin : min (sub32 c.handler.vCallback.length c.m_nQIndex) c.handler.vCallback.length =
      c.handler.vCallback.length := by
    rw [h.started, sub32, Nat.mod_eq_of_lt (by omega)]
    omega
  have hloop : eraseLoop c.handler.vCallback.length 0 c.handler.vCallback =
      some c.handler.vCallback := by
    rw [eraseLoop_of_le (Nat.zero_le _) (Nat.zero_add _).ge, Nat.sub_zero, List.take_length]
  simp only [abortJob, eraseBack, hmin, if_true, Nat.sub_self, List.drop_zero, List.take_zero, hloop,
    Option.map_some]
  rw [h.queued]

/-- **When a job is aborted exactly**, whatever has been queued before and since and whatever has
been answered. `m_vCallback` has a size of 32 bits in bytes. -/
theorem abortJob_exact_iff (h : c.InJob before remaining since)
    (hlt : before.length + since.length < 2 ^ 29) :
    c.AbortsExactly remaining since ↔
      remaining = [] ∧ (before = [] ∨ since.length < before.length) := by
  have hle : remaining.length ≤ before.length := h.unanswered.length_le
  rcases Nat.lt_or_ge (remaining.length + since.length) before.length with hless | hmore
  · -- everything is discarded
    rw [AbortsExactly, abortJob_of_length_lt h hless (by omega)]
    constructor
    · rintro ⟨e, he, -, -, hvCallback⟩
      obtain rfl := Option.some.inj he
      exact ⟨hvCallback.symm, .inr (by omega)⟩
    · rintro ⟨rfl, -⟩
      exact ⟨_, rfl, rfl, rfl, rfl⟩
  · rcases hle.lt_or_eq with hanswered | hnone
    · -- as many callbacks are left as there were before the job
      have hlen : c.handler.vCallback.length = remaining.length + since.length := by
        rw [h.queued, List.length_append]
      have hsub : sub32 (remaining.length + since.length) c.m_nQIndex =
          remaining.length + since.length - before.length := by
        rw [h.started, sub32_of_le hmore (by omega)]
      refine iff_of_false ?_ ?_
      · rintro ⟨e, he, -, -, hvCallback⟩
        have hkept : e.handler.vCallback.length = before.length := by
          simp only [abortJob, eraseBack, if_true, hlen, hsub] at he
          obtain ⟨passed, -, rfl⟩ := Option.map_eq_some_iff.1 he
          rw [List.length_take, hlen]
          omega
        rw [hvCallback] at hkept
        omega
      · rintro ⟨rfl, rfl | hfew⟩
        · exact absurd hanswered (Nat.lt_irrefl _)
        · rw [List.length_nil, Nat.zero_add] at hmore
          omega
    · obtain rfl : remaining = before := h.unanswered.eq_of_length hnone
      rw [abortsExactly_of_all_unanswered h hlt]
      constructor
      · exact fun hnil ↦ ⟨hnil, .inl hnil⟩
      · exact And.left

/-- The pair of a request that has a function to be called when it is given up. -/
def pairOf (n : ℕ) : RRPair ℕ := ⟨n, idReservedTwo + 1, ⟨none, some n, none⟩⟩

/-- Two callbacks from before the job, both answered, and one of the job. -/
theorem abortJob_exact_one :
    AbortsExactly ⟨⟨[pairOf 2], [], [0, 1], 3⟩, 2⟩ [] [pairOf 2] := by
  have h : InJob ⟨⟨[pairOf 2], [], [0, 1], 3⟩, 2⟩ [pairOf 0, pairOf 1] [] [pairOf 2] :=
    ⟨rfl, List.nil_sublist _, rfl⟩
  exact (abortJob_exact_iff h (by decide)).2 ⟨rfl, .inr (by decide)⟩

/-- One callback from before the job and two of the job: only the first of these is discarded. -/
theorem abortJob_inexact :
    ∃ (c : CQueueImpl ℕ) (before remaining since : List (RRPair ℕ)),
      c.InJob before remaining since ∧ before.length + since.length < 2 ^ 29 ∧
        ¬ c.AbortsExactly remaining since := by
  let c : CQueueImpl ℕ := ⟨⟨[pairOf 0, pairOf 1, pairOf 2], [], [], 3⟩, 1⟩
  refine ⟨c, [pairOf 0], [pairOf 0], [pairOf 1, pairOf 2], ⟨rfl, .refl _, rfl⟩, by decide, ?_⟩
  have hcalled : (c.abortJob true).map Erased.discarded = some [.discarded 1 true] := by
    decide +kernel
  rintro ⟨e, he, hdiscarded, -⟩
  rw [he, Option.map_some, hdiscarded] at hcalled
  exact absurd hcalled (by decide +kernel)

/-! ### Whole jobs -/

/-- A request of the job, or an answer to a request from before it. -/
inductive JobAction (κ : Type*)
  | send (reqId : UInt16) (cb : CResultCb κ)
  | answer (kind : AnswerKind) (random : Bool) (reqId : UInt16)

/-- The second component keeps the callbacks from before the job that are not answered. -/
def jobStep : CQueueImpl κ × List (RRPair κ) → JobAction κ → Option (CQueueImpl κ × List (RRPair κ))
  | (c, remaining), .send reqId cb => some (c.send reqId cb, remaining)
  | (c, remaining), .answer kind random reqId =>
    if kind = .result ∧ reqId = idInterrupt then none
    else match { c.handler with vCallback := remaining }.getAsyncResultHandler random reqId with
      | (some _, h) => some (c.answer kind random reqId, h.vCallback)
      | (none, _) => none

theorem jobStep_inJob {s t : CQueueImpl κ × List (RRPair κ)} {action : JobAction κ}
    (h : ∃ since, s.1.InJob before s.2 since) (hstep : jobStep s action = some t) :
    ∃ since, t.1.InJob before t.2 since := by
  obtain ⟨since, h⟩ := h
  cases action with
  | send reqId cb =>
    obtain rfl := Option.some.inj hstep
    exact (h.send reqId cb).imp' _ fun _ ↦ id
  | answer kind random reqId =>
    simp only [jobStep] at hstep
    split at hstep
    · cases hstep
    · next hid =>
      split at hstep
      · next hlook =>
        obtain rfl := Option.some.inj hstep
        exact ⟨since, h.answer hid hlook⟩
      · cases hstep

end CQueueImpl

end SocketPro.Client
