import SocketPro.Java.AsyncServiceHandler

/-!
# One outcome for each callback of the Java handlers

What a run of the handlers keeps, if its steps are `Orderly`. The queue of a handler stands in the
order in which the core writes the requests; only entries of refused calls may stand anywhere in it
(`CAsyncServiceHandler.Lined`). So the first request that is answered is the one in front.

**One step** of a handler is `Proper`: entries only move or go out with the callback that is due,
the queue stays in order, and what a call takes is its own. `act_proper` says so for every step,
with one lemma for each call.

**A run** keeps `Sound`, the accounts of all handlers together, and `javaHandlers_one_outcome` reads
off what the handlers owe. `m_bBatching` is never set, so the batching queue stays empty and
`AbortBatching` gives up nothing; a batch with callbacks is dropped in order only if none of them is
in the queue.
-/

namespace SocketPro.Java.AsyncHandler

open Machine Tenancy Handler Transit

variable {κ : Type} {h h' : CAsyncServiceHandler κ} {e : Events κ}

/-! ### Answers -/

/-- An answer that takes no entry. -/
theorem deliver_passes (kind : AnswerKind) (expected : Option (Entry κ)) {reqId : UInt16}
    (hpass : kind = .result ∧ reqId = idInterrupt ∨ h.Passes reqId) :
    h.deliver kind reqId expected = (h, { answers := [(expected, none)] }) := by
  rw [CAsyncServiceHandler.deliver]
  split
  · rfl
  · next hint =>
    have hpasses := hpass.resolve_left hint
    have hnone : h.GetAsyncResultHandler reqId = (none, h) := by
      rw [CAsyncServiceHandler.GetAsyncResultHandler]
      split
      · next kv rest hq =>
        exact if_neg (hpasses kv (by rw [hq]; rfl))
      · rfl
    rw [hnone]

/-- An answer that takes the entry in front. -/
theorem deliver_front (kind : AnswerKind) (expected : Option (Entry κ)) {kv : Entry κ}
    {rest : List (Entry κ)} (hq : h.m_kvCallback = kv :: rest)
    (hid : idReservedTwo < kv.reqId) :
    h.deliver kind kv.reqId expected =
      ({ h with m_kvCallback := rest, answering := h.answering ++ [(kv, kind)] },
        { answers := [(expected, some kv)] }) := by
  have hint : ¬ (kind = .result ∧ kv.reqId = idInterrupt) := fun hboth ↦ by
    rw [hboth.2] at hid
    exact absurd hid (by decide)
  have htake : h.GetAsyncResultHandler kv.reqId = (some kv, { h with m_kvCallback := rest }) := by
    rw [CAsyncServiceHandler.GetAsyncResultHandler, hq]
    exact if_pos rfl
  rw [CAsyncServiceHandler.deliver, if_neg hint, htake]

/-! ### The order -/

variable [DecidableEq κ]

namespace CAsyncServiceHandler

/-- The entries whose requests are with the core, in the order in which they are written; the call
in progress comes last. -/
def order (h : CAsyncServiceHandler κ) : List (Entry κ) :=
  entries h.core.all ++ h.sending.toList.map Call.kv

/-- The entries of calls that were refused. -/
def strays (h : CAsyncServiceHandler κ) : List (Entry κ) := h.refused.map Call.kv

/-- The entries with the core and those of the refused calls. -/
def live (h : CAsyncServiceHandler κ) : Multiset (Entry κ) :=
  (h.order : Multiset (Entry κ)) + (h.strays : Multiset (Entry κ))

/-- **What is known of a handler.** Its queue is in the order of the core, and it never batches. -/
structure Lined (h : CAsyncServiceHandler κ) : Prop where
  aligned : Aligned h.m_kvCallback h.order h.strays
  no_batching : h.m_kvBatching = []
  not_batching : h.m_bBatching = false
  ids : ∀ kv ∈ h.m_kvCallback, idReservedTwo < kv.reqId

end CAsyncServiceHandler

/-- What an orderly step does. -/
structure Proper (h h' : CAsyncServiceHandler κ) (e : Events κ) : Prop where
  fair : Fair h.held h'.held h.live h'.live e
  lined : h'.Lined

/-- The core changes or drops requests without entries in the queue. -/
theorem Proper.core (hl : h.Lined) (hlive : h.live.Nodup)
    (hqueue : h'.m_kvCallback = h.m_kvCallback) (hbatching : h'.m_kvBatching = [])
    (hflag : h'.m_bBatching = false) (hsending : h'.sending = h.sending)
    (hrefused : h'.refused = h.refused) (hanswering : h'.answering = h.answering)
    (hsub : (entries h'.core.all).Sublist (entries h.core.all))
    (hkept : ∀ kv ∈ h.m_kvCallback, kv ∈ entries h.core.all → kv ∈ entries h'.core.all) :
    Proper h h' {} := by
  have hstrays : h'.strays = h.strays := by
    rw [CAsyncServiceHandler.strays, hrefused, CAsyncServiceHandler.strays]
  have horder : h'.order.Sublist h.order := by
    rw [CAsyncServiceHandler.order, CAsyncServiceHandler.order, hsending]
    exact hsub.append_right _
  refine ⟨.quiet ?_ ?_, ?_, hbatching, hflag, hqueue ▸ hl.ids⟩
  · rw [CAsyncServiceHandler.held, CAsyncServiceHandler.held, hqueue, hbatching, hanswering,
      hl.no_batching]
  · rw [CAsyncServiceHandler.live, CAsyncServiceHandler.live, hstrays]
    exact add_le_add_left (Multiset.coe_le.2 horder.subperm) _
  · rw [hqueue, hstrays]
    refine hl.aligned.shrink (Multiset.nodup_add.1 hlive).1 (.refl _) horder
      (fun a ha hin hnot ↦ absurd ?_ hnot) fun a _ ha ↦ ha
    rw [CAsyncServiceHandler.order, hsending]
    rcases List.mem_append.1 hin with hin | hin
    · exact List.mem_append_left _ (hkept a ha hin)
    · exact List.mem_append_right _ hin

/-- The core changes, and keeps all requests with entries. -/
theorem Proper.core_of_eq (hl : h.Lined) (hlive : h.live.Nodup) {core : Sender (Request κ)} {n : ℕ}
    (hall : entries core.all = entries h.core.all) :
    Proper h { h with m_nQIndex := n, core := core } {} :=
  .core hl hlive rfl hl.no_batching hl.not_batching rfl rfl rfl (hall ▸ .refl _)
    fun _ _ hin ↦ hall.symm ▸ hin

/-- **The core answers the call in progress.** Its entry stays the last of all, or becomes a
stray. -/
theorem send_proper (hl : h.Lined) (hlive : h.live.Nodup) {c : Call κ} (hc : h.sending = some c)
    (sent : Bool) : Proper h (h.send c sent) {} := by
  have horder : h.order = entries h.core.all ++ [c.kv] := by
    rw [CAsyncServiceHandler.order, hc]
    rfl
  have hnodup : h.order.Nodup := (Multiset.nodup_add.1 hlive).1
  cases sent with
  | true =>
    have hsame : (h.send c true).order = h.order := by
      rw [horder, ← entries_accept_tracked]
      exact List.append_nil _
    refine ⟨.quiet rfl ?_, ?_, hl.no_batching, hl.not_batching, hl.ids⟩
    · rw [CAsyncServiceHandler.live, hsame]
      rfl
    · rw [hsame]
      exact hl.aligned
  | false =>
    have hless : (h.send c false).order = entries h.core.all := List.append_nil _
    have hstrays : (h.send c false).strays = h.strays ++ [c.kv] := List.map_append
    refine ⟨.quiet rfl ?_, ?_, hl.no_batching, hl.not_batching, hl.ids⟩
    · rw [CAsyncServiceHandler.live, CAsyncServiceHandler.live, hless, hstrays, horder,
        coe_append_singleton, coe_append_singleton]
      exact le_of_eq (by abel)
    · rw [hless, hstrays]
      refine hl.aligned.shrink hnodup (.refl _) (by rw [horder]; exact List.sublist_append_left _ _)
        (fun a _ ha hnot ↦ ?_) fun a _ ha ↦ List.mem_append_left _ ha
      rw [horder] at ha
      exact List.mem_append_right _ ((List.mem_append.1 ha).resolve_left hnot)

theorem sendPlain_proper (hl : h.Lined) (hlive : h.live.Nodup) (reqId : UInt16) (sent : Bool) :
    Proper h (h.sendPlain reqId sent) {} := by
  have hsame : Proper h h {} := .core_of_eq (n := h.m_nQIndex) hl hlive rfl
  rw [CAsyncServiceHandler.sendPlain]
  split
  · exact hsame
  · split
    · exact .core_of_eq hl hlive (entries_accept_plain h.core reqId)
    · exact hsame

/-- **A failed call clears the queue** in which only its own entry is. -/
theorem clear_proper (hl : h.Lined) {i : ℕ} {c : Call κ} (hc : h.refused[i]? = some c)
    (hown : h.queueOf c.batching = [c.kv]) : Proper h (h.clear i c).1 (h.clear i c).2 := by
  obtain ⟨kv, - | -⟩ := c
  · refine ⟨.fail hown ?_ ?_, .nil, hl.no_batching, hl.not_batching,
      fun _ hkv ↦ absurd hkv List.not_mem_nil⟩
    · have hqueue : h.m_kvCallback = [kv] := hown
      simp only [CAsyncServiceHandler.held, CAsyncServiceHandler.clear,
        CAsyncServiceHandler.setQueue, Bool.false_eq_true, if_false, hqueue,
        Multiset.coe_singleton, Multiset.coe_nil]
      abel
    · refine add_le_add_right (Multiset.coe_le.2 ?_) _
      exact ((List.eraseIdx_sublist _ _).map _).subperm
  · -- nothing is added to the batching queue
    exact absurd (hl.no_batching.symm.trans hown) (List.cons_ne_nil _ _).symm

theorem queued_eq (hl : h.Lined) : h.queued = h.m_kvCallback := by
  rw [CAsyncServiceHandler.queued, hl.no_batching, List.append_nil]

/-- No entry in the queue is lost. -/
theorem filter_queued_eq_nil (hl : h.Lined) {dropped : List (Entry κ)}
    (hdropped : ∀ kv ∈ dropped, kv ∉ h.m_kvCallback) : dropped.filter (· ∈ h.queued) = [] := by
  rw [queued_eq hl]
  exact List.filter_eq_nil_iff.2 fun kv hkv ↦ by simpa using hdropped kv hkv

theorem commitBatching_proper (hl : h.Lined) (hlive : h.live.Nodup) (r : CommitResult)
    (hC : h.Orderly (.commitBatching r)) :
    Proper h (h.CommitBatching r).1 (h.CommitBatching r).2 := by
  have hquiet : Proper h (h.CommitBatching r).1 {} := by
    refine .core hl hlive ?_ rfl rfl rfl rfl rfl ((apply_sublist h.core r).filterMap _)
      fun kv hkv hin ↦ mem_apply hin fun hlost ↦ hC kv hlost hkv
    show h.m_kvCallback ++ h.m_kvBatching = _
    rw [hl.no_batching, List.append_nil]
  exact ⟨hquiet.fair.aborts (filter_queued_eq_nil hl hC).symm, hquiet.lined⟩

/-- **`AbortBatching`** finds nothing in the batching queue. -/
theorem abortBatching_proper (hl : h.Lined) (hlive : h.live.Nodup) (ok : Bool)
    (hC : h.Orderly (.abortBatching ok)) :
    Proper h (h.AbortBatching ok).1 (h.AbortBatching ok).2 := by
  have hquiet : Proper h (h.AbortBatching ok).1 {} := by
    refine .core hl hlive rfl rfl rfl rfl rfl rfl ?_ fun kv hkv hin ↦ ?_
    · cases ok with
      | true => exact Sender.dropBatch_sublist.filterMap _
      | false => exact .refl _
    · cases ok with
      | true => exact mem_dropBatch hin fun hbatch ↦ hC kv hbatch hkv
      | false => exact hin
  have hnone : ((if ok then entries h.core.inBatch else []).filter (· ∈ h.queued)) = [] := by
    cases ok with
    | true => exact filter_queued_eq_nil hl hC
    | false => rfl
  have hevents : (h.AbortBatching ok).2 = { aborts := [([], [])] } := by
    simp only [CAsyncServiceHandler.AbortBatching, hnone, hl.no_batching]
    rfl
  rw [hevents]
  exact ⟨hquiet.fair.aborts rfl, hquiet.lined⟩

/-- **`AbortJob`** erases what is behind the place where the job began. -/
theorem abortJob_proper (hl : h.Lined) (hlive : h.live.Nodup) (hqueue : h.m_kvCallback.Nodup)
    (ok : Bool) (hC : h.Orderly (.abortJob ok)) :
    Proper h (h.AbortJob ok).1 (h.AbortJob ok).2 := by
  cases ok with
  | false => exact .core_of_eq (n := h.m_nQIndex) hl hlive rfl
  | true =>
    have herase : h.eraseFrom (h.m_kvCallback.length - h.m_nQIndex) = h.m_nQIndex := by
      rw [CAsyncServiceHandler.eraseFrom]
      omega
    have hjob : h.m_kvCallback.drop h.m_nQIndex =
        (entries h.core.inJob).filter (· ∈ h.m_kvCallback) := hC
    have hsub : CAsyncServiceHandler.order
        { h with core := h.core.dropJob } |>.Sublist h.order :=
      (Sender.dropJob_sublist.filterMap _).append_right _
    simp only [CAsyncServiceHandler.AbortJob, CAsyncServiceHandler.EraseBack, herase, if_true]
    refine ⟨.aborts (.giveUp ?_ ?_) ?_, ?_, hl.no_batching, hl.not_batching, fun kv hkv ↦ ?_⟩
    · have hsplit : (h.m_kvCallback : Multiset (Entry κ)) =
          (h.m_kvCallback.take h.m_nQIndex : Multiset (Entry κ)) +
            (h.m_kvCallback.drop h.m_nQIndex : Multiset (Entry κ)) := by
        rw [Multiset.coe_add, List.take_append_drop]
      rw [Multiset.coe_reverse]
      simp only [CAsyncServiceHandler.held, hsplit]
      abel
    · exact add_le_add_left (Multiset.coe_le.2 hsub.subperm) _
    · rw [List.reverse_reverse, queued_eq hl, hjob]
    · refine hl.aligned.shrink (Multiset.nodup_add.1 hlive).1 (List.take_sublist _ _) hsub
        (fun a ha hin hnot ↦ ?_) fun a _ ha ↦ ha
      -- an entry of the job stands behind the place
      have hinJob : a ∈ entries h.core.inJob := by
        rw [CAsyncServiceHandler.order, Sender.all_dropJob] at hnot
        rw [CAsyncServiceHandler.order, Sender.all] at hin
        simp only [entries_append, List.mem_append] at hin hnot
        tauto
      have hdrop : a ∈ h.m_kvCallback.drop h.m_nQIndex := by
        rw [hjob]
        exact List.mem_filter.2 ⟨hinJob, decide_eq_true (List.mem_of_mem_take ha)⟩
      exact absurd hdrop (List.disjoint_take_drop hqueue (Nat.le_refl _) ha)
    · exact hl.ids kv (List.mem_of_mem_take hkv)

theorem frame_proper (hl : h.Lined) (hlive : h.live.Nodup) {kind : AnswerKind} {reqId : UInt16}
    (hC : h.Orderly (.frame kind reqId)) :
    Proper h (h.deliver kind reqId none).1 (h.deliver kind reqId none).2 := by
  rw [deliver_passes kind none hC]
  have hquiet : Proper h h {} := .core_of_eq (n := h.m_nQIndex) hl hlive rfl
  exact ⟨hquiet.fair.answers, hquiet.lined⟩

/-- **An answer takes the entry of its request.** -/
theorem respond_proper (hl : h.Lined) (hlive : h.live.Nodup) (hqueue : h.m_kvCallback.Nodup)
    {kind : AnswerKind} {r : Request κ} (hr : h.core.wire.head? = some r) (hC : h.Answers r) :
    Proper h (h.respond kind r).1 (h.respond kind r).2 := by
  obtain ⟨rest, hwire⟩ : ∃ rest, h.core.wire = r :: rest := ⟨_, (List.cons_head?_tail hr).symm⟩
  have hall : entries h.core.all = r.entry.toList ++ entries h.core.answered.all := by
    rw [Sender.all_of_wire hwire]
    cases r <;> rfl
  have hsub : (entries h.core.answered.all).Sublist (entries h.core.all) :=
    hall ▸ List.sublist_append_right _ _
  rw [CAsyncServiceHandler.respond, queued_eq hl]
  rw [CAsyncServiceHandler.Answers] at hC
  split at hC
  · next e he =>
    obtain ⟨hentry, hin⟩ := Option.filter_eq_some_iff.1 he
    have hin := of_decide_eq_true hin
    obtain ⟨f, q, hq⟩ := List.exists_cons_of_ne_nil (List.ne_nil_of_mem hin)
    have horder : h.order = e :: CAsyncServiceHandler.order { h with core := h.core.answered } := by
      rw [CAsyncServiceHandler.order, hall, hentry]
      rfl
    have hnodup := (Multiset.nodup_add.1 hlive).1
    have hfront : f = e := by
      have haligned := hl.aligned
      rw [hq, horder] at haligned
      rw [horder] at hnodup
      exact haligned.front hnodup (hq ▸ hin) (hC f (by rw [hq]; rfl))
    subst hfront
    have hid : r.reqId = f.reqId := by
      cases r with
      | plain reqId => cases hentry
      | tracked kv => exact congrArg Entry.reqId (Option.some.inj hentry)
    have hdeliver := deliver_front (h := { h with core := h.core.answered }) kind (some f) hq
      (hl.ids f hin)
    rw [he, hid, hdeliver]
    have hfresh : f ∉ q := (List.nodup_cons.1 (hq ▸ hqueue)).1
    refine ⟨.answers (.quiet ?_ ?_), ?_, hl.no_batching, hl.not_batching, fun kv hkv ↦ ?_⟩
    · simp only [CAsyncServiceHandler.held, hq, ← Multiset.cons_coe, coe_append_singleton,
        Multiset.map_add, Multiset.map_singleton, ← Multiset.singleton_add]
      abel
    · refine add_le_add_left (Multiset.coe_le.2 ?_) _
      exact (horder ▸ List.sublist_cons_self _ _ : List.Sublist _ h.order).subperm
    · refine hl.aligned.shrink hnodup (hq ▸ List.sublist_cons_self _ _)
        (horder ▸ List.sublist_cons_self _ _) (fun a ha hmem hnot ↦ ?_) fun a _ ha ↦ ha
      rw [horder] at hmem
      obtain rfl := (List.mem_cons.1 hmem).resolve_right hnot
      exact absurd ha hfresh
    · exact hl.ids kv (hq ▸ List.mem_cons_of_mem _ hkv)
  · next he =>
    have hdeliver := deliver_passes (h := { h with core := h.core.answered }) kind none (.inr hC)
    have hquiet : Proper h { h with core := h.core.answered } {} := by
      refine .core hl hlive rfl hl.no_batching hl.not_batching rfl rfl rfl hsub
        fun kv hkv hin ↦ ?_
      rw [hall] at hin
      refine (List.mem_append.1 hin).resolve_left fun hentry ↦ ?_
      have hsome : r.entry = some kv := Option.mem_toList.1 hentry
      rw [hsome, Option.filter_some] at he
      simp [hkv] at he
    rw [he, hdeliver]
    exact ⟨hquiet.fair.answers, hquiet.lined⟩

theorem answer_proper (hl : h.Lined) {i : ℕ} {a : Entry κ × AnswerKind}
    (ha : h.answering[i]? = some a) :
    Proper h (h.answer i a.1 a.2).1 (h.answer i a.1 a.2).2 := by
  refine ⟨.out ?_ (le_refl _) (List.append_nil _).symm, hl.aligned, hl.no_batching,
    hl.not_batching, hl.ids⟩
  simp only [CAsyncServiceHandler.held, CAsyncServiceHandler.answer, coe_eraseIdx ha,
    Multiset.coe_singleton, Multiset.map_add, Multiset.map_singleton]
  abel

theorem clean_proper (hl : h.Lined) (canceled : Bool) :
    Proper h (h.CleanCallbacks canceled).1 (h.CleanCallbacks canceled).2 := by
  refine ⟨.giveUp ?_ (le_refl _), .nil, rfl, hl.not_batching, fun _ hkv ↦ absurd hkv List.not_mem_nil⟩
  simp only [CAsyncServiceHandler.held, CAsyncServiceHandler.CleanCallbacks,
    ← Multiset.coe_add, Multiset.coe_nil]
  abel

/-- **One step of a handler.** -/
theorem act_proper (hl : h.Lined) (hlive : h.live.Nodup) (hqueue : h.m_kvCallback.Nodup) (op : Op)
    (hC : h.Orderly op) (hact : h.act op = some (h', e)) : Proper h h' e := by
  cases op with
  | send sent =>
    obtain ⟨c, hc, hsent⟩ := Option.map_eq_some_iff.1 hact
    obtain ⟨rfl, rfl⟩ := Prod.mk.inj hsent
    exact send_proper hl hlive hc sent
  | sendPlain reqId sent =>
    obtain ⟨rfl, rfl⟩ := Prod.mk.inj (Option.some.inj hact)
    exact sendPlain_proper hl hlive reqId sent
  | clear i =>
    obtain ⟨c, hc, hclear⟩ := Option.map_eq_some_iff.1 hact
    obtain ⟨rfl, rfl⟩ := Prod.mk.inj hclear
    exact clear_proper hl hc (hC c hc)
  | startBatching ok =>
    obtain ⟨rfl, rfl⟩ := Prod.mk.inj (Option.some.inj hact)
    refine .core hl hlive rfl hl.no_batching rfl rfl rfl rfl ?_ fun kv _ hin ↦ ?_
    · cases ok <;> exact .refl _
    · cases ok <;> exact hin
  | commitBatching r =>
    obtain ⟨rfl, rfl⟩ := Prod.mk.inj (Option.some.inj hact)
    exact commitBatching_proper hl hlive r hC
  | abortBatching ok =>
    obtain ⟨rfl, rfl⟩ := Prod.mk.inj (Option.some.inj hact)
    exact abortBatching_proper hl hlive ok hC
  | startJob =>
    obtain ⟨rfl, rfl⟩ := Prod.mk.inj (Option.some.inj hact)
    exact .core_of_eq hl hlive rfl
  | coreStartJob ok =>
    obtain ⟨rfl, rfl⟩ := Prod.mk.inj (Option.some.inj hact)
    cases ok <;> exact .core_of_eq (n := h.m_nQIndex) hl hlive rfl
  | endJob ok =>
    obtain ⟨rfl, rfl⟩ := Prod.mk.inj (Option.some.inj hact)
    cases ok with
    | true => exact .core_of_eq hl hlive (congrArg entries Sender.all_endJob)
    | false => exact .core_of_eq (n := h.m_nQIndex) hl hlive rfl
  | abortJob ok =>
    obtain ⟨rfl, rfl⟩ := Prod.mk.inj (Option.some.inj hact)
    exact abortJob_proper hl hlive hqueue ok hC
  | respond kind =>
    obtain ⟨r, hr, hrespond⟩ := Option.map_eq_some_iff.1 hact
    obtain ⟨rfl, rfl⟩ := Prod.mk.inj hrespond
    exact respond_proper hl hlive hqueue hr (hC r hr)
  | frame kind reqId =>
    obtain ⟨rfl, rfl⟩ := Prod.mk.inj (Option.some.inj hact)
    exact frame_proper hl hlive hC
  | answer i =>
    obtain ⟨a, ha, hanswer⟩ := Option.map_eq_some_iff.1 hact
    obtain ⟨rfl, rfl⟩ := Prod.mk.inj hanswer
    exact answer_proper hl ha
  | clean canceled =>
    obtain ⟨rfl, rfl⟩ := Prod.mk.inj (Option.some.inj hact)
    exact clean_proper hl canceled

/-! ### All handlers -/

variable {s t : State κ} {i j : ℕ}

/-- The entries with the cores and those of the refused calls. -/
def State.live (s : State κ) : Multiset (Entry κ) := sumOf CAsyncServiceHandler.live s.handlers

/-- **The invariant.** -/
structure Sound (s : State κ) : Prop where
  accounts : Accounts s.held s.live s.made s.events
  lined : ∀ h ∈ s.handlers, h.Lined

theorem start_sound : Sound (State.start : State κ) where
  accounts := .start
  lined _ hh := absurd hh List.not_mem_nil

theorem Sound.live_nodup (hs : Sound s) (hh : h ∈ s.handlers) : h.live.Nodup :=
  Multiset.nodup_of_le (le_sumOf hh) hs.accounts.nodup.of_map

omit [DecidableEq κ] in
theorem queue_le_held (hh : h ∈ s.handlers) : (h.m_kvCallback : Multiset (Entry κ)) ≤ s.held :=
  calc (h.m_kvCallback : Multiset (Entry κ))
      ≤ h.held := (Multiset.le_add_right _ _).trans (Multiset.le_add_right _ _)
    _ ≤ s.held := le_sumOf hh

theorem Sound.queue_nodup (hs : Sound s) (hh : h ∈ s.handlers) : h.m_kvCallback.Nodup :=
  Multiset.coe_nodup.1 (Multiset.nodup_of_le (queue_le_held hh) hs.accounts.held_nodup)

/-- **A step of one handler.** -/
theorem on_sound (hs : Sound s) (hi : s.handlers[i]? = some h) (hproper : Proper h h' e) :
    Sound { s with handlers := s.handlers.set i h', events := s.events.append e } where
  accounts := hs.accounts.step (hproper.fair.set hi)
  lined g hg := by
    rcases List.mem_or_eq_of_mem_set hg with hg | rfl
    · exact hs.lined g hg
    · exact hproper.lined

omit [DecidableEq κ] in
theorem add_eq (hflag : h.m_bBatching = false) (kv : Entry κ) :
    h.add kv = { h with
      m_kvCallback := h.m_kvCallback ++ [kv]
      sending := some ⟨kv, false⟩ } := by
  obtain ⟨queue, batching, flag, index, sending, refused, answering, core⟩ := h
  obtain rfl : flag = false := hflag
  rfl

/-- **A new entry** comes last in its queue and in the order. -/
theorem add_sound (hs : Sound s) (hi : s.handlers[i]? = some h) (hfree : h.sending = none)
    (reqId : UInt16) (rcb : CResultCb κ) : Sound (s.add i h reqId rcb) := by
  rw [State.add]
  split
  · exact hs
  · next hid =>
    have hh := List.mem_of_getElem? hi
    have hl := hs.lined h hh
    let kv : Entry κ := ⟨reqId, rcb, s.made⟩
    have hadd := add_eq hl.not_batching kv
    have horder : (h.add kv).order = h.order ++ [kv] := by
      rw [hadd, CAsyncServiceHandler.order, CAsyncServiceHandler.order, hfree]
      show _ ++ [kv] = _ ++ [] ++ [kv]
      rw [List.append_nil]
    have hheld : (h.add kv).held = kv ::ₘ h.held := by
      rw [hadd, ← Multiset.singleton_add]
      simp only [CAsyncServiceHandler.held, coe_append_singleton]
      abel
    have hlive : (h.add kv).live = kv ::ₘ h.live := by
      rw [CAsyncServiceHandler.live, horder, coe_append_singleton, ← Multiset.singleton_add,
        CAsyncServiceHandler.live, hadd]
      show _ + _ + (h.strays : Multiset (Entry κ)) = _
      abel
    have hheldSum : sumOf CAsyncServiceHandler.held (s.handlers.set i (h.add kv)) =
        kv ::ₘ s.held := by
      refine add_right_cancel (b := h.held) ((sumOf_set_add _ hi _).trans ?_)
      rw [hheld, Multiset.cons_add, Multiset.add_cons]
      rfl
    have hliveSum : sumOf CAsyncServiceHandler.live (s.handlers.set i (h.add kv)) =
        kv ::ₘ s.live := by
      refine add_right_cancel (b := h.live) ((sumOf_set_add _ hi _).trans ?_)
      rw [hlive, Multiset.cons_add, Multiset.add_cons]
      rfl
    refine ⟨?_, fun g hg ↦ ?_⟩
    · show Accounts (sumOf CAsyncServiceHandler.held _) (sumOf CAsyncServiceHandler.live _) _ _
      rw [hheldSum, hliveSum]
      exact hs.accounts.make rfl
    · rcases List.mem_or_eq_of_mem_set hg with hg | rfl
      · exact hs.lined g hg
      · refine ⟨?_, hadd ▸ hl.no_batching, hadd ▸ hl.not_batching, fun a ha ↦ ?_⟩
        · rw [horder, hadd]
          exact hl.aligned.push fun hin ↦ absurd
            (hs.accounts.held_fresh (Multiset.mem_of_le (queue_le_held hh) hin)) (Nat.lt_irrefl _)
        · rw [hadd] at ha
          rcases List.mem_append.1 ha with ha | ha
          · exact hl.ids a ha
          · obtain rfl := List.mem_singleton.1 ha
            exact UInt16.not_le.1 hid

omit [DecidableEq κ] in
theorem order_eq (h : CAsyncServiceHandler κ) : h.order = entries h.core.wire ++ h.unwritten := by
  simp only [CAsyncServiceHandler.order, CAsyncServiceHandler.unwritten, Sender.all,
    entries_append, List.append_assoc]

/-- **A handler is appended to another one.** -/
theorem appendTo_sound (hs : Sound s) {other : CAsyncServiceHandler κ}
    (hi : s.handlers[i]? = some h) (hj : s.handlers[j]? = some other) (hne : i ≠ j)
    (hC : h.m_kvCallback = [] ∨ (∀ kv ∈ other.m_kvCallback, kv ∉ other.unwritten) ∧
      ∀ kv ∈ h.m_kvCallback, kv ∈ entries h.core.wire) : Sound (s.AppendTo i j h other) := by
  have hh := List.mem_of_getElem? hi
  have hother := List.mem_of_getElem? hj
  have hl := hs.lined h hh
  have hlo := hs.lined other hother
  let merged := { other with
    m_kvCallback := other.m_kvCallback ++ h.m_kvCallback
    core := other.core.takeOver h.core.wire }
  let emptied := { h with m_kvCallback := [], core := { h.core with wire := [] } }
  have horder : merged.order =
      entries other.core.wire ++ entries h.core.wire ++ other.unwritten := by
    rw [order_eq]
    exact congrArg (· ++ _) (entries_append _ _)
  have hrest : emptied.order = h.unwritten := order_eq _
  have hlive : emptied.live + merged.live = h.live + other.live := by
    simp only [CAsyncServiceHandler.live]
    rw [hrest, horder, order_eq, order_eq, ← Multiset.coe_add, ← Multiset.coe_add,
      ← Multiset.coe_add, ← Multiset.coe_add]
    show _ + (h.strays : Multiset (Entry κ)) + (_ + (other.strays : Multiset (Entry κ))) = _
    abel
  have hheld : emptied.held + merged.held = h.held + other.held := by
    simp only [CAsyncServiceHandler.held, merged, emptied, ← Multiset.coe_add, Multiset.coe_nil]
    abel
  have hboth : (h.live + other.live).Nodup :=
    Multiset.nodup_of_le (add_le_sumOf hi hj hne) hs.accounts.nodup.of_map
  have hliveSum := sumOf_set_set CAsyncServiceHandler.live hi hj hne hlive
  have hheldSum := sumOf_set_set CAsyncServiceHandler.held hi hj hne hheld
  have haligned : Aligned merged.m_kvCallback merged.order merged.strays := by
    rw [horder]
    have hothers : Aligned (other.m_kvCallback ++ [])
        (entries other.core.wire ++ other.unwritten) other.strays := by
      rw [List.append_nil]
      exact order_eq other ▸ hlo.aligned
    have hmerge := hothers.merge (order_eq h ▸ hl.aligned.inLine)
      (order_eq other ▸ (Multiset.nodup_add.1 (hs.live_nodup hother)).1)
      (order_eq h ▸ (Multiset.nodup_add.1 (hs.live_nodup hh)).1) (fun a ha hwire ↦ ?_)
      (hC.imp_right fun hcase ↦ ⟨hcase.1, fun _ ha ↦ absurd ha List.not_mem_nil, hcase.2⟩)
    · rwa [List.append_nil] at hmerge
    rw [List.append_nil] at ha
    -- an entry has one handler only
    have hin : a ∈ h.live := Multiset.mem_add.2 (.inl (by
      rw [order_eq]
      exact List.mem_append_left _ hwire))
    have hin' : a ∈ other.live := Multiset.mem_add.2 (hlo.aligned.known a ha)
    exact Multiset.disjoint_left.1 (Multiset.nodup_add.1 hboth).2.2 hin hin'
  refine ⟨?_, fun g hg ↦ ?_⟩
  · show Accounts (sumOf CAsyncServiceHandler.held _) (sumOf CAsyncServiceHandler.live _) _ _
    rw [State.AppendTo, hheldSum, hliveSum]
    exact hs.accounts
  · rcases List.mem_or_eq_of_mem_set hg with hg | rfl
    · rcases List.mem_or_eq_of_mem_set hg with hg | rfl
      · exact hs.lined g hg
      · exact ⟨haligned, hlo.no_batching, hlo.not_batching, fun kv hkv ↦
          (List.mem_append.1 hkv).elim (hlo.ids kv) (hl.ids kv)⟩
    · exact ⟨.nil, hl.no_batching, hl.not_batching, fun _ hkv ↦ absurd hkv List.not_mem_nil⟩

theorem newHandler_sound (hs : Sound s) :
    Sound { s with handlers := s.handlers ++ [.new] } := by
  have hlive : sumOf CAsyncServiceHandler.live (s.handlers ++ [.new]) = s.live := by
    rw [sumOf_concat]
    exact Multiset.zero_add _
  have hheld : sumOf CAsyncServiceHandler.held (s.handlers ++ [.new]) = s.held := by
    rw [sumOf_concat]
    exact Multiset.zero_add _
  refine ⟨?_, fun g hg ↦ ?_⟩
  · show Accounts (sumOf CAsyncServiceHandler.held _) (sumOf CAsyncServiceHandler.live _) _ _
    rw [hheld, hlive]
    exact hs.accounts
  · rcases List.mem_append.1 hg with hg | hg
    · exact hs.lined g hg
    · obtain rfl := List.mem_singleton.1 hg
      exact ⟨.nil, rfl, rfl, fun _ hkv ↦ absurd hkv List.not_mem_nil⟩

/-- **One step.** -/
theorem step_sound (hs : Sound s) (a : Action κ) (hC : s.Orderly a) (ht : s.step a = some t) :
    Sound t := by
  cases a with
  | newHandler =>
    obtain rfl := Option.some.inj ht
    exact newHandler_sound hs
  | add i reqId rcb =>
    obtain ⟨h, hi, ht⟩ := Option.bind_eq_some_iff.1 ht
    obtain ⟨⟨hfree, -⟩, ht⟩ := Option.ite_none_right_eq_some.1 ht
    obtain rfl := Option.some.inj ht
    exact add_sound hs hi hfree reqId rcb
  | on i op =>
    obtain ⟨h, hi, ht⟩ := Option.bind_eq_some_iff.1 ht
    obtain ⟨⟨h', e⟩, hact, rfl⟩ := Option.map_eq_some_iff.1 ht
    have hh := List.mem_of_getElem? hi
    exact on_sound hs hi (act_proper (hs.lined h hh) (hs.live_nodup hh) (hs.queue_nodup hh) op
      (hC h hi) hact)
  | appendTo i j =>
    rw [State.step] at ht
    split at ht
    · next h other hi hj =>
      obtain ⟨hne, ht⟩ := Option.ite_none_left_eq_some.1 ht
      obtain rfl := Option.some.inj ht
      exact appendTo_sound hs hi hj hne (hC h hi other hj)
    · exact nomatch ht

/-- **One outcome for each request**: in every run in which the calls meet the conditions. -/
theorem javaHandlers_one_outcome (as : List (Action κ))
    (hin : Within State.step State.Orderly State.start as)
    (hrun : run State.step State.start as = some t) : t.OneOutcome :=
  (invariant_of_within (I := Sound) (fun _ a _ hs hC hstep ↦ step_sound hs a hC hstep) as start_sound
    hin hrun).accounts.oneOutcome

/-- Two handlers. The first request is answered with a result, the second one is in a job that is
aborted; the third one is written with a batch, and an exception answers it after its handler has
been appended to the other one. -/
def someActions : List (Action ℕ) :=
  [.newHandler, .newHandler, .add 0 0x2101 ⟨some 1, none, none⟩, .on 0 (.send true),
    .on 0 (.respond .result), .on 0 (.answer 0), .on 0 .startJob, .on 0 (.coreStartJob true),
    .add 0 0x2102 ⟨some 2, some 3, none⟩, .on 0 (.send true), .on 0 (.abortJob true),
    .on 0 (.startBatching true), .add 0 0x2103 ⟨some 4, none, some 5⟩, .on 0 (.send true),
    .on 0 (.commitBatching .written), .appendTo 0 1, .on 1 (.respond .exception), .on 1 (.answer 0)]

theorem javaHandlers_one_outcome_someActions :
    ∃ t : State ℕ, run State.step State.start someActions = some t ∧ t.OneOutcome ∧
      t.events.invoked =
        [(0, .AsyncResultHandler 1), (1, .Discarded 3 true), (2, .ExceptionFromServer 5)] :=
  ⟨_, rfl, javaHandlers_one_outcome someActions (by decide) rfl, rfl⟩

/-- **A failed call clears the queue.** The first request has been accepted when the second one is
refused. -/
theorem clears_others :
    ¬ ∀ (as : List (Action ℕ)) (t : State ℕ), run State.step State.start as = some t →
      t.OneOutcome := by
  intro hall
  have hone := hall [.newHandler, .add 0 0x2101 ⟨some 1, none, none⟩, .on 0 (.send true),
    .add 0 0x2102 ⟨some 2, none, none⟩, .on 0 (.send false), .on 0 (.clear 0)] _ rfl
  have hown := hone.ownEntry (⟨⟨0x2102, ⟨some 2, none, none⟩, 1⟩, false⟩,
    [⟨0x2101, ⟨some 1, none, none⟩, 0⟩, ⟨0x2102, ⟨some 2, none, none⟩, 1⟩]) List.mem_cons_self
  exact absurd hown (by decide)

end SocketPro.Java.AsyncHandler
