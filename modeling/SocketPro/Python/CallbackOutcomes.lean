import SocketPro.Python.AsyncServiceHandler

/-!
# One outcome for each callback of the Python handlers

What a run of the handlers keeps, if its steps are `Orderly`. The two deques of a handler, that of
the batch last, stand in the order in which the core writes the requests; only entries of refused
calls may stand anywhere in them (`CAsyncServiceHandler.Lined`). So the first request that is
answered is the one in front, and the deque of the callbacks is in the order of the wire.

**One step** of a handler is `Proper`; `act_proper` says so for every step, with one lemma for each
call. **A run** keeps `Sound`, the accounts of all handlers together, and
`pythonHandlers_one_outcome` reads off what the handlers owe.
-/

namespace SocketPro.Python.AsyncHandler

open Machine Tenancy Handler Transit

variable {κ : Type} {h h' : CAsyncServiceHandler κ} {e : Events κ}

/-! ### Answers -/

/-- An answer that takes no entry. -/
theorem deliver_passes (kind : AnswerKind) (expected : Option (Entry κ)) {reqId : UInt16}
    (hpass : kind = .result ∧ reqId = idInterrupt ∨ h.Passes reqId) :
    h.deliver kind reqId expected = (h, { answers := [(expected, none)] }) := by
  rw [CAsyncServiceHandler.deliver]
  split
  · rfl
  · next hint =>
    have hpasses := hpass.resolve_left hint
    have hnone : h.GetAsyncResultHandler reqId = (none, h) := by
      rw [CAsyncServiceHandler.GetAsyncResultHandler]
      split
      · next kv rest hq =>
        exact if_neg (hpasses kv (by rw [hq]; rfl))
      · rfl
    rw [hnone]

/-- An answer that takes the entry in front. -/
theorem deliver_front (kind : AnswerKind) (expected : Option (Entry κ)) {kv : Entry κ}
    {rest : List (Entry κ)} (hq : h.m_kvCallback = kv :: rest)
    (hid : idReservedTwo < kv.reqId) :
    h.deliver kind kv.reqId expected =
      ({ h with m_kvCallback := rest, answering := h.answering ++ [(kv, kind)] },
        { answers := [(expected, some kv)] }) := by
  have hint : ¬ (kind = .result ∧ kv.reqId = idInterrupt) := fun hboth ↦ by
    rw [hboth.2] at hid
    exact absurd hid (by decide)
  have htake : h.GetAsyncResultHandler kv.reqId = (some kv, { h with m_kvCallback := rest }) := by
    rw [CAsyncServiceHandler.GetAsyncResultHandler, hq]
    exact if_pos rfl
  rw [CAsyncServiceHandler.deliver, if_neg hint, htake]

/-! ### The order -/

variable [DecidableEq κ]

namespace CAsyncServiceHandler

/-- The entries whose requests are with the core, in the order in which they are written; the call
in progress comes last. -/
def order (h : CAsyncServiceHandler κ) : List (Entry κ) :=
  entries h.core.all ++ h.sending.toList.map Call.kv

/-- The entries of calls that were refused. -/
def strays (h : CAsyncServiceHandler κ) : List (Entry κ) := h.refused.map Call.kv

/-- The entries with the core and those of the refused calls. -/
def live (h : CAsyncServiceHandler κ) : Multiset (Entry κ) :=
  (h.order : Multiset (Entry κ)) + (h.strays : Multiset (Entry κ))

/-- **What is known of a handler.** Its deques are in the order of the core. -/
structure Lined (h : CAsyncServiceHandler κ) : Prop where
  aligned : Aligned h.queued h.order h.strays
  ids : ∀ kv ∈ h.queued, idReservedTwo < kv.reqId
  entering_ids : ∀ call ∈ h.entering, idReservedTwo < call.reqId

end CAsyncServiceHandler

omit [DecidableEq κ] in
theorem order_eq (h : CAsyncServiceHandler κ) : h.order = entries h.core.wire ++ h.unwritten := by
  simp only [CAsyncServiceHandler.order, CAsyncServiceHandler.unwritten, Sender.all,
    entries_append, List.append_assoc]

/-- What an orderly step does. -/
structure Proper (h h' : CAsyncServiceHandler κ) (e : Events κ) : Prop where
  fair : Fair h.held h'.held h.live h'.live e
  lined : h'.Lined

/-- The core changes or drops requests without entries in the deques. -/
theorem Proper.core (hl : h.Lined) (hlive : h.live.Nodup) (hqueue : h'.queued = h.queued)
    (hentering : h'.entering = h.entering) (hsending : h'.sending = h.sending)
    (hrefused : h'.refused = h.refused) (hanswering : h'.answering = h.answering)
    (hcleaning : h'.cleaning = h.cleaning)
    (hsub : (entries h'.core.all).Sublist (entries h.core.all))
    (hkept : ∀ kv ∈ h.queued, kv ∈ entries h.core.all → kv ∈ entries h'.core.all) :
    Proper h h' {} := by
  have hstrays : h'.strays = h.strays := by
    rw [CAsyncServiceHandler.strays, hrefused, CAsyncServiceHandler.strays]
  have horder : h'.order.Sublist h.order := by
    rw [CAsyncServiceHandler.order, CAsyncServiceHandler.order, hsending]
    exact hsub.append_right _
  refine ⟨.quiet ?_ ?_, ?_, hqueue ▸ hl.ids, hentering ▸ hl.entering_ids⟩
  · rw [CAsyncServiceHandler.held, CAsyncServiceHandler.held, hqueue, hanswering, hcleaning]
  · rw [CAsyncServiceHandler.live, CAsyncServiceHandler.live, hstrays]
    exact add_le_add_left (Multiset.coe_le.2 horder.subperm) _
  · rw [hqueue, hstrays]
    refine hl.aligned.shrink (Multiset.nodup_add.1 hlive).1 (.refl _) horder
      (fun a ha hin hnot ↦ absurd ?_ hnot) fun a _ ha ↦ ha
    rw [CAsyncServiceHandler.order, hsending]
    rcases List.mem_append.1 hin with hin | hin
    · exact List.mem_append_left _ (hkept a ha hin)
    · exact List.mem_append_right _ hin

/-- The core changes, and keeps all requests with entries. -/
theorem Proper.core_of_eq (hl : h.Lined) (hlive : h.live.Nodup) {core : Sender (Request κ)}
    {calling : List CoreCall} (hall : entries core.all = entries h.core.all) :
    Proper h { h with calling := calling, core := core } {} :=
  .core hl hlive rfl rfl rfl rfl rfl rfl (hall ▸ .refl _) fun _ _ hin ↦ hall.symm ▸ hin

/-- Nothing happens. -/
theorem Proper.refl (hl : h.Lined) : Proper h h {} := ⟨.quiet rfl (le_refl _), hl⟩

theorem enter_proper (hl : h.Lined) (reqId : UInt16) (rcb : CResultCb κ) :
    Proper h (h.enter reqId rcb) {} := by
  rw [CAsyncServiceHandler.enter]
  split
  · exact .refl hl
  · next hid =>
    refine ⟨.quiet rfl (le_refl _), hl.aligned, hl.ids, fun call hcall ↦ ?_⟩
    rcases List.mem_append.1 hcall with hcall | hcall
    · exact hl.entering_ids call hcall
    · obtain rfl := List.mem_singleton.1 hcall
      exact UInt16.not_le.1 hid

/-- **The core answers the call in progress.** Its entry stays the last of all, or becomes a
stray. -/
theorem send_proper (hl : h.Lined) (hlive : h.live.Nodup) {c : Call κ} (hc : h.sending = some c)
    (sent : Bool) : Proper h (h.send c sent) {} := by
  have horder : h.order = entries h.core.all ++ [c.kv] := by
    rw [CAsyncServiceHandler.order, hc]
    rfl
  have hnodup : h.order.Nodup := (Multiset.nodup_add.1 hlive).1
  cases sent with
  | true =>
    have hsame : (h.send c true).order = h.order := by
      rw [horder, ← entries_accept_tracked]
      exact List.append_nil _
    refine ⟨.quiet rfl ?_, ?_, hl.ids, hl.entering_ids⟩
    · rw [CAsyncServiceHandler.live, hsame]
      rfl
    · rw [hsame]
      exact hl.aligned
  | false =>
    have hless : (h.send c false).order = entries h.core.all := List.append_nil _
    have hstrays : (h.send c false).strays = h.strays ++ [c.kv] := List.map_append
    refine ⟨.quiet rfl ?_, ?_, hl.ids, hl.entering_ids⟩
    · rw [CAsyncServiceHandler.live, CAsyncServiceHandler.live, hless, hstrays, horder,
        coe_append_singleton, coe_append_singleton]
      exact le_of_eq (by abel)
    · rw [hless, hstrays]
      refine hl.aligned.shrink hnodup (.refl _) (by rw [horder]; exact List.sublist_append_left _ _)
        (fun a _ ha hnot ↦ ?_) fun a _ ha ↦ List.mem_append_left _ ha
      rw [horder] at ha
      exact List.mem_append_right _ ((List.mem_append.1 ha).resolve_left hnot)

theorem sendPlain_proper (hl : h.Lined) (hlive : h.live.Nodup) (reqId : UInt16) (sent : Bool) :
    Proper h (h.sendPlain reqId sent) {} := by
  rw [CAsyncServiceHandler.sendPlain]
  split
  · exact .refl hl
  · split
    · exact .core_of_eq hl hlive (entries_accept_plain h.core reqId)
    · exact .refl hl

omit [DecidableEq κ] in
/-- What `pop` leaves in the deques when the last entry is that of the call. -/
theorem pop_queued {i : ℕ} {c : Call κ} (hown : (h.queueOf c.batching).getLast? = some c.kv) :
    (h.pop i c).1.queued.Sublist h.queued ∧
      (h.queued : Multiset (Entry κ)) = {c.kv} + ((h.pop i c).1.queued : Multiset (Entry κ)) := by
  obtain ⟨q, hq⟩ := List.getLast?_eq_some_iff.1 hown
  obtain ⟨kv, batching⟩ := c
  cases batching with
  | true =>
    have hbatch : h.m_kvBatching = q ++ [kv] := hq
    simp only [CAsyncServiceHandler.pop, CAsyncServiceHandler.setQueue,
      CAsyncServiceHandler.queueOf, CAsyncServiceHandler.queued, if_true, hbatch,
      List.dropLast_concat, ← Multiset.coe_add, Multiset.coe_singleton]
    exact ⟨(List.sublist_append_left _ _).append_left _, by abel⟩
  | false =>
    have hcallback : h.m_kvCallback = q ++ [kv] := hq
    simp only [CAsyncServiceHandler.pop, CAsyncServiceHandler.setQueue,
      CAsyncServiceHandler.queueOf, CAsyncServiceHandler.queued, Bool.false_eq_true, if_false,
      hcallback, List.dropLast_concat, ← Multiset.coe_add, Multiset.coe_singleton]
    exact ⟨(List.sublist_append_left _ _).append_right _, by abel⟩

omit [DecidableEq κ] in
/-- What `pop` does not touch. -/
theorem pop_frame (h : CAsyncServiceHandler κ) (i : ℕ) (c : Call κ) :
    (h.pop i c).1.order = h.order ∧ (h.pop i c).1.answering = h.answering ∧
      (h.pop i c).1.cleaning = h.cleaning ∧ (h.pop i c).1.entering = h.entering ∧
      (h.pop i c).1.refused = h.refused.eraseIdx i := by
  obtain ⟨kv, - | -⟩ := c <;> exact ⟨rfl, rfl, rfl, rfl, rfl⟩

/-- **A failed call pops its own entry**, the last one of its deque. -/
theorem pop_proper (hl : h.Lined) (hlive : h.live.Nodup) (hqueue : h.queued.Nodup) {i : ℕ}
    {c : Call κ} (hc : h.refused[i]? = some c)
    (hown : (h.queueOf c.batching).getLast? = some c.kv) :
    Proper h (h.pop i c).1 (h.pop i c).2 := by
  obtain ⟨hsub, hmem⟩ := pop_queued (i := i) hown
  obtain ⟨horder, hanswering, hcleaning, hentering, hrefused⟩ := pop_frame h i c
  have hstrays : (h.strays : Multiset (Entry κ)) =
      {c.kv} + ((h.pop i c).1.strays : Multiset (Entry κ)) := by
    rw [CAsyncServiceHandler.strays, CAsyncServiceHandler.strays, hrefused, ← Multiset.map_coe,
      ← Multiset.map_coe, coe_eraseIdx hc, Multiset.map_add, Multiset.map_singleton]
  have hremoved : (h.queueOf c.batching).getLast?.toList = [c.kv] := by
    rw [hown]
    rfl
  refine ⟨.fail hremoved ?_ ?_, ?_, fun kv hkv ↦ hl.ids kv (hsub.subset hkv),
    hentering ▸ hl.entering_ids⟩
  · rw [CAsyncServiceHandler.held, CAsyncServiceHandler.held, hanswering, hcleaning, hmem]
    abel
  · rw [CAsyncServiceHandler.live, CAsyncServiceHandler.live, horder, hstrays]
    exact add_le_add_right (Multiset.le_add_left _ _) _
  · rw [horder]
    refine hl.aligned.shrink (Multiset.nodup_add.1 hlive).1 hsub (.refl _)
      (fun a _ hin hnot ↦ absurd hin hnot) fun a ha hstray ↦ ?_
    -- another refused call has another entry
    have hne : a ≠ c.kv := fun heq ↦ by
      have hnodup := Multiset.coe_nodup.2 hqueue
      rw [hmem, Multiset.singleton_add, Multiset.nodup_cons] at hnodup
      exact hnodup.1 (heq ▸ ha)
    have hin : a ∈ ({c.kv} : Multiset (Entry κ)) + ((h.pop i c).1.strays : Multiset (Entry κ)) :=
      hstrays ▸ hstray
    exact (Multiset.mem_add.1 hin).resolve_left fun heq ↦ hne (Multiset.mem_singleton.1 heq)

/-! ### Batches -/

omit [DecidableEq κ] in
theorem called_eq {c : CoreCall} (hcall : h.called c = some h') :
    h' = { h with calling := h.calling.erase c } := by
  obtain ⟨-, hcall⟩ := Option.ite_none_right_eq_some.1 hcall
  exact (Option.some.inj hcall).symm

/-- No entry in the deques is lost. -/
theorem filter_queued_eq_nil {dropped : List (Entry κ)} (hdropped : ∀ kv ∈ dropped, kv ∉ h.queued) :
    dropped.filter (· ∈ h.queued) = [] :=
  List.filter_eq_nil_iff.2 fun kv hkv ↦ by simpa using hdropped kv hkv

theorem startBatching_proper (hl : h.Lined) (hlive : h.live.Nodup) (hC : h.m_kvBatching = []) :
    Proper h h.StartBatching {} := by
  have hqueue : h.StartBatching.queued = h.queued := by
    rw [CAsyncServiceHandler.queued, CAsyncServiceHandler.queued, hC]
    rfl
  exact .core hl hlive hqueue rfl rfl rfl rfl rfl (.refl _) fun _ _ hin ↦ hin

/-- **`AbortBatching`** gives up the entries of the batch. -/
theorem abortBatching_proper (hl : h.Lined) (hlive : h.live.Nodup) :
    Proper h h.AbortBatching.1 h.AbortBatching.2 := by
  have hqueue : h.AbortBatching.1.queued = h.m_kvCallback := List.append_nil _
  have hsub : h.AbortBatching.1.queued.Sublist h.queued := by
    rw [hqueue]
    exact List.sublist_append_left _ _
  refine ⟨.giveUp ?_ (le_refl _), ?_, fun kv hkv ↦ hl.ids kv (hsub.subset hkv), hl.entering_ids⟩
  · rw [CAsyncServiceHandler.held, CAsyncServiceHandler.held, hqueue, CAsyncServiceHandler.queued,
      ← Multiset.coe_add]
    simp only [CAsyncServiceHandler.AbortBatching]
    abel
  · exact hl.aligned.shrink (Multiset.nodup_add.1 hlive).1 hsub (.refl _)
      (fun _ _ hin hnot ↦ absurd hin hnot) fun _ _ ha ↦ ha

theorem coreAbortBatching_proper (hl : h.Lined) (hlive : h.live.Nodup) {ok : Bool}
    (hC : ok → ∀ kv ∈ entries h.core.inBatch, kv ∉ h.queued) :
    Proper h (h.coreAbortBatching ok).1 (h.coreAbortBatching ok).2 := by
  cases ok with
  | false => exact .refl hl
  | true =>
    have hquiet : Proper h { h with core := h.core.dropBatch } {} :=
      .core hl hlive rfl rfl rfl rfl rfl rfl (Sender.dropBatch_sublist.filterMap _)
        fun kv hkv hin ↦ mem_dropBatch hin fun hbatch ↦ hC rfl kv hbatch hkv
    exact ⟨hquiet.fair.aborts (filter_queued_eq_nil (hC rfl)).symm, hquiet.lined⟩

/-- **`CommitBatching`** moves the entries of the batch from one deque to the other. -/
theorem commitBatching_proper (hl : h.Lined) (hlive : h.live.Nodup) :
    Proper h h.CommitBatching {} :=
  .core hl hlive (List.append_nil _) rfl rfl rfl rfl rfl (.refl _) fun _ _ hin ↦ hin

theorem coreCommitBatching_proper (hl : h.Lined) (hlive : h.live.Nodup) {r : CommitResult}
    (hC : ∀ kv ∈ r.lost h.core, kv ∉ h.queued) :
    Proper h (h.coreCommitBatching r).1 (h.coreCommitBatching r).2 := by
  have hquiet : Proper h (h.coreCommitBatching r).1 {} :=
    .core hl hlive rfl rfl rfl rfl rfl rfl ((apply_sublist h.core r).filterMap _)
      fun kv hkv hin ↦ mem_apply hin fun hlost ↦ hC kv hlost hkv
  exact ⟨hquiet.fair.aborts (filter_queued_eq_nil hC).symm, hquiet.lined⟩

/-- A core call of `StartBatching`, `AbortBatching` or `CommitBatching` is one less to come. -/
theorem Proper.of_called {g : CAsyncServiceHandler κ} {calling : List CoreCall}
    (hproper : Proper { h with calling := calling } g e) : Proper h g e :=
  ⟨hproper.fair, hproper.lined⟩

/-! ### Frames -/

theorem frame_proper (hl : h.Lined) {kind : AnswerKind} {reqId : UInt16}
    (hC : h.Orderly (.frame kind reqId)) :
    Proper h (h.deliver kind reqId none).1 (h.deliver kind reqId none).2 := by
  rw [deliver_passes kind none hC]
  exact ⟨(Proper.refl hl).fair.answers, hl⟩

/-- **An answer takes the entry of its request.** -/
theorem respond_proper (hl : h.Lined) (hlive : h.live.Nodup) (hqueue : h.queued.Nodup)
    {kind : AnswerKind} {r : Request κ} (hr : h.core.wire.head? = some r) (hC : h.Answers r) :
    Proper h (h.respond kind r).1 (h.respond kind r).2 := by
  obtain ⟨rest, hwire⟩ : ∃ rest, h.core.wire = r :: rest := ⟨_, (List.cons_head?_tail hr).symm⟩
  have hall : entries h.core.all = r.entry.toList ++ entries h.core.answered.all := by
    rw [Sender.all_of_wire hwire]
    cases r <;> rfl
  rw [CAsyncServiceHandler.respond]
  rw [CAsyncServiceHandler.Answers] at hC
  split at hC
  · next e he =>
    obtain ⟨hentry, -⟩ := Option.filter_eq_some_iff.1 he
    obtain ⟨hin, hstray⟩ := hC
    obtain ⟨f, q, hq⟩ := List.exists_cons_of_ne_nil (List.ne_nil_of_mem hin)
    have hqueued : h.queued = f :: (q ++ h.m_kvBatching) := by
      rw [CAsyncServiceHandler.queued, hq]
      rfl
    have horder : h.order = e :: CAsyncServiceHandler.order { h with core := h.core.answered } := by
      rw [CAsyncServiceHandler.order, hall, hentry]
      rfl
    have hnodup := (Multiset.nodup_add.1 hlive).1
    have hfront : f = e := by
      have haligned := hl.aligned
      rw [hqueued, horder] at haligned
      rw [horder] at hnodup
      exact haligned.front hnodup (hqueued ▸ List.mem_append_left _ hin)
        (hstray f (by rw [hq]; rfl))
    subst hfront
    have hid : r.reqId = f.reqId := by
      cases r with
      | plain reqId => cases hentry
      | tracked kv => exact congrArg Entry.reqId (Option.some.inj hentry)
    have hdeliver := deliver_front (h := { h with core := h.core.answered }) kind (some f) hq
      (hl.ids f (List.mem_append_left _ hin))
    rw [he, hid, hdeliver]
    have hfresh : f ∉ q ++ h.m_kvBatching := (List.nodup_cons.1 (hqueued ▸ hqueue)).1
    refine ⟨.answers (.quiet ?_ ?_), ?_,
      fun kv hkv ↦ hl.ids kv (hqueued ▸ List.mem_cons_of_mem _ hkv), hl.entering_ids⟩
    · simp only [CAsyncServiceHandler.held, CAsyncServiceHandler.queued, hq, List.cons_append,
        ← Multiset.cons_coe, coe_append_singleton, Multiset.map_add, Multiset.map_singleton,
        ← Multiset.singleton_add]
      abel
    · refine add_le_add_left (Multiset.coe_le.2 ?_) _
      exact (horder ▸ List.sublist_cons_self _ _ : List.Sublist _ h.order).subperm
    · refine hl.aligned.shrink hnodup (hqueued ▸ List.sublist_cons_self _ _)
        (horder ▸ List.sublist_cons_self _ _) (fun a ha hmem hnot ↦ ?_) fun a _ ha ↦ ha
      rw [horder] at hmem
      obtain rfl := (List.mem_cons.1 hmem).resolve_right hnot
      exact absurd ha hfresh
  · next he =>
    have hdeliver := deliver_passes (h := { h with core := h.core.answered }) kind none (.inr hC)
    have hquiet : Proper h { h with core := h.core.answered } {} := by
      refine .core hl hlive rfl rfl rfl rfl rfl rfl (hall ▸ List.sublist_append_right _ _)
        fun kv hkv hin ↦ ?_
      rw [hall] at hin
      refine (List.mem_append.1 hin).resolve_left fun hentry ↦ ?_
      have hsome : r.entry = some kv := Option.mem_toList.1 hentry
      rw [hsome, Option.filter_some] at he
      simp [hkv] at he
    rw [he, hdeliver]
    exact ⟨hquiet.fair.answers, hquiet.lined⟩

theorem answer_proper (hl : h.Lined) {i : ℕ} {a : Entry κ × AnswerKind}
    (ha : h.answering[i]? = some a) :
    Proper h (h.answer i a.1 a.2).1 (h.answer i a.1 a.2).2 := by
  refine ⟨.out ?_ (le_refl _) (List.append_nil _).symm, hl.aligned, hl.ids, hl.entering_ids⟩
  simp only [CAsyncServiceHandler.held, CAsyncServiceHandler.queued, CAsyncServiceHandler.answer,
    coe_eraseIdx ha, Multiset.coe_singleton, Multiset.map_add, Multiset.map_singleton]
  abel

/-! ### Giving up -/

/-- **`CleanCallbacks`** takes all entries. -/
theorem clean_proper (hl : h.Lined) : Proper h h.CleanCallbacks {} := by
  refine ⟨.quiet ?_ (le_refl _), .nil, fun _ hkv ↦ absurd hkv List.not_mem_nil, hl.entering_ids⟩
  simp only [CAsyncServiceHandler.held, CAsyncServiceHandler.queued,
    CAsyncServiceHandler.CleanCallbacks, sumOf_concat, ← Multiset.coe_add, Multiset.coe_nil]
  abel

theorem discard_proper (hl : h.Lined) {i : ℕ} {canceled : Bool} {taken : List (Entry κ)}
    (htaken : h.cleaning[i]? = some taken) (hdiscard : h.discard i canceled taken = some (h', e)) :
    Proper h h' e := by
  cases taken with
  | nil => exact nomatch hdiscard
  | cons kv rest =>
    obtain ⟨rfl, rfl⟩ := Prod.mk.inj (Option.some.inj hdiscard)
    have hset := sumOf_set_add (fun l : List (Entry κ) ↦ (l : Multiset (Entry κ))) htaken rest
    have hcleaning : sumOf (fun l : List (Entry κ) ↦ (l : Multiset (Entry κ))) h.cleaning =
        sumOf (fun l : List (Entry κ) ↦ (l : Multiset (Entry κ))) (h.cleaning.set i rest) + {kv} := by
      refine add_right_cancel (b := (rest : Multiset (Entry κ))) (Eq.trans hset.symm ?_)
      rw [← Multiset.cons_coe, ← Multiset.singleton_add]
      abel
    refine ⟨.out ?_ (le_refl _) (List.append_nil _).symm, hl.aligned, hl.ids, hl.entering_ids⟩
    simp only [CAsyncServiceHandler.held, CAsyncServiceHandler.queued, hcleaning,
      Multiset.coe_singleton, Multiset.map_singleton]
    abel

/-- **One step of a handler.** -/
theorem act_proper (hl : h.Lined) (hlive : h.live.Nodup) (hqueue : h.queued.Nodup) (op : Op κ)
    (hC : h.Orderly op) (hact : h.act op = some (h', e)) : Proper h h' e := by
  cases op with
  | enter reqId rcb =>
    obtain ⟨-, hact⟩ := Option.ite_none_right_eq_some.1 hact
    obtain ⟨rfl, rfl⟩ := Prod.mk.inj (Option.some.inj hact)
    exact enter_proper hl reqId rcb
  | send sent =>
    obtain ⟨c, hc, hsent⟩ := Option.map_eq_some_iff.1 hact
    obtain ⟨rfl, rfl⟩ := Prod.mk.inj hsent
    exact send_proper hl hlive hc sent
  | sendPlain reqId sent =>
    obtain ⟨rfl, rfl⟩ := Prod.mk.inj (Option.some.inj hact)
    exact sendPlain_proper hl hlive reqId sent
  | pop i =>
    obtain ⟨c, hc, hpop⟩ := Option.map_eq_some_iff.1 hact
    obtain ⟨rfl, rfl⟩ := Prod.mk.inj hpop
    exact pop_proper hl hlive hqueue hc (hC c hc)
  | startBatching =>
    obtain ⟨rfl, rfl⟩ := Prod.mk.inj (Option.some.inj hact)
    exact startBatching_proper hl hlive hC
  | coreStartBatching ok =>
    obtain ⟨g, hg, hstart⟩ := Option.map_eq_some_iff.1 hact
    obtain ⟨rfl, rfl⟩ := Prod.mk.inj hstart
    obtain rfl := called_eq hg
    cases ok <;> exact .core_of_eq hl hlive rfl
  | abortBatching =>
    obtain ⟨rfl, rfl⟩ := Prod.mk.inj (Option.some.inj hact)
    exact abortBatching_proper hl hlive
  | coreAbortBatching ok =>
    obtain ⟨g, hg, habort⟩ := Option.map_eq_some_iff.1 hact
    obtain rfl := called_eq hg
    have hown : ok → ∀ kv ∈ entries h.core.inBatch, kv ∉ h.queued := by
      rintro rfl
      exact hC
    have hproper := coreAbortBatching_proper
      (h := { h with calling := h.calling.erase .AbortBatching })
      ⟨hl.aligned, hl.ids, hl.entering_ids⟩ hlive hown
    rw [habort] at hproper
    exact hproper.of_called
  | commitBatching =>
    obtain ⟨rfl, rfl⟩ := Prod.mk.inj (Option.some.inj hact)
    exact commitBatching_proper hl hlive
  | coreCommitBatching r =>
    obtain ⟨g, hg, hcommit⟩ := Option.map_eq_some_iff.1 hact
    obtain rfl := called_eq hg
    have hproper := coreCommitBatching_proper (r := r)
      (h := { h with calling := h.calling.erase .CommitBatching })
      ⟨hl.aligned, hl.ids, hl.entering_ids⟩ hlive hC
    rw [hcommit] at hproper
    exact hproper.of_called
  | startJob ok =>
    obtain ⟨rfl, rfl⟩ := Prod.mk.inj (Option.some.inj hact)
    cases ok with
    | true => exact .core_of_eq hl hlive rfl
    | false => exact .refl hl
  | endJob ok =>
    obtain ⟨rfl, rfl⟩ := Prod.mk.inj (Option.some.inj hact)
    cases ok with
    | true => exact .core_of_eq hl hlive (congrArg entries Sender.all_endJob)
    | false => exact .refl hl
  | respond kind =>
    obtain ⟨r, hr, hrespond⟩ := Option.map_eq_some_iff.1 hact
    obtain ⟨rfl, rfl⟩ := Prod.mk.inj hrespond
    exact respond_proper hl hlive hqueue hr (hC r hr)
  | frame kind reqId =>
    obtain ⟨rfl, rfl⟩ := Prod.mk.inj (Option.some.inj hact)
    exact frame_proper hl hC
  | answer i =>
    obtain ⟨a, ha, hanswer⟩ := Option.map_eq_some_iff.1 hact
    obtain ⟨rfl, rfl⟩ := Prod.mk.inj hanswer
    exact answer_proper hl ha
  | clean =>
    obtain ⟨rfl, rfl⟩ := Prod.mk.inj (Option.some.inj hact)
    exact clean_proper hl
  | discard i canceled =>
    obtain ⟨taken, htaken, hdiscard⟩ := Option.bind_eq_some_iff.1 hact
    exact discard_proper hl htaken hdiscard

/-! ### All handlers -/

variable {s t : State κ} {i j k : ℕ}

/-- The entries with the cores and those of the refused calls. -/
def State.live (s : State κ) : Multiset (Entry κ) := sumOf CAsyncServiceHandler.live s.handlers

/-- **The invariant.** -/
structure Sound (s : State κ) : Prop where
  accounts : Accounts s.held s.live s.made s.events
  lined : ∀ h ∈ s.handlers, h.Lined

theorem start_sound : Sound (State.start : State κ) where
  accounts := .start
  lined _ hh := absurd hh List.not_mem_nil

theorem Sound.live_nodup (hs : Sound s) (hh : h ∈ s.handlers) : h.live.Nodup :=
  Multiset.nodup_of_le (le_sumOf hh) hs.accounts.nodup.of_map

omit [DecidableEq κ] in
theorem queued_le_held (hh : h ∈ s.handlers) : (h.queued : Multiset (Entry κ)) ≤ s.held :=
  calc (h.queued : Multiset (Entry κ))
      ≤ h.held := (Multiset.le_add_right _ _).trans (Multiset.le_add_right _ _)
    _ ≤ s.held := le_sumOf hh

theorem Sound.queued_nodup (hs : Sound s) (hh : h ∈ s.handlers) : h.queued.Nodup :=
  Multiset.coe_nodup.1 (Multiset.nodup_of_le (queued_le_held hh) hs.accounts.held_nodup)

/-- **A step of one handler.** -/
theorem on_sound (hs : Sound s) (hi : s.handlers[i]? = some h) (hproper : Proper h h' e) :
    Sound { s with handlers := s.handlers.set i h', events := s.events.append e } where
  accounts := hs.accounts.step (hproper.fair.set hi)
  lined g hg := by
    rcases List.mem_or_eq_of_mem_set hg with hg | rfl
    · exact hs.lined g hg
    · exact hproper.lined

/-- Where a new entry is put. -/
theorem append_aligned (hl : h.Lined) (hfree : h.sending = none) {call : Entering κ}
    (hC : h.Appends call) {kv : Entry κ} (hfresh : kv ∉ h.queued) :
    Aligned (h.setQueue call.batching (h.queueOf call.batching ++ [kv])).queued
      (h.order ++ [kv]) h.strays := by
  have horder : h.order = entries h.core.all := by
    rw [CAsyncServiceHandler.order, hfree]
    exact List.append_nil _
  obtain ⟨reqId, rcb, batching⟩ := call
  cases batching with
  | true =>
    have hpush := hl.aligned.push hfresh
    rw [CAsyncServiceHandler.queued, List.append_assoc] at hpush
    exact hpush
  | false =>
    have hbehind : ∀ b ∈ h.m_kvBatching, b ∉ h.order := by
      rw [horder]
      exact hC.resolve_left Bool.false_ne_true
    have hline := hl.aligned.inLine.insert hfresh hbehind
    show Aligned (h.m_kvCallback ++ [kv] ++ h.m_kvBatching) _ _
    rw [List.append_assoc]
    refine ⟨hline, fun a ha ↦ ?_⟩
    rcases List.mem_append.1 ha with ha | ha
    · exact (hl.aligned.known a (List.mem_append_left _ ha)).imp_left (List.mem_append_left _)
    · rcases List.mem_cons.1 ha with rfl | ha
      · exact .inl (List.mem_append_right _ (List.mem_singleton_self a))
      · exact (hl.aligned.known a (List.mem_append_right _ ha)).imp_left (List.mem_append_left _)

/-- **A new entry** comes last in the order. -/
theorem append_sound (hs : Sound s) (hi : s.handlers[i]? = some h) {call : Entering κ}
    (hcall : h.entering[k]? = some call) (hfree : h.sending = none) (hC : h.Appends call) :
    Sound { s with handlers := s.handlers.set i (h.append k call s.made), made := s.made + 1 } := by
  have hh := List.mem_of_getElem? hi
  have hl := hs.lined h hh
  let kv : Entry κ := ⟨call.reqId, call.rcb, s.made⟩
  have hqueued : ((h.append k call s.made).queued : Multiset (Entry κ)) =
      kv ::ₘ (h.queued : Multiset (Entry κ)) := by
    obtain ⟨reqId, rcb, batching⟩ := call
    cases batching <;>
      simp only [CAsyncServiceHandler.append, CAsyncServiceHandler.setQueue,
        CAsyncServiceHandler.queueOf, CAsyncServiceHandler.queued, if_true, Bool.false_eq_true,
        if_false, ← Multiset.coe_add, Multiset.coe_singleton, ← Multiset.singleton_add, kv] <;>
      abel
  have hframe : (h.append k call s.made).strays = h.strays ∧
      (h.append k call s.made).order = h.order ++ [kv] ∧
      (h.append k call s.made).answering = h.answering ∧
      (h.append k call s.made).cleaning = h.cleaning := by
    have horder : h.order = entries h.core.all := by
      rw [CAsyncServiceHandler.order, hfree]
      exact List.append_nil _
    obtain ⟨reqId, rcb, - | -⟩ := call <;> exact ⟨rfl, horder ▸ rfl, rfl, rfl⟩
  obtain ⟨hstrays, horder, hanswering, hcleaning⟩ := hframe
  have hheld : sumOf CAsyncServiceHandler.held (s.handlers.set i (h.append k call s.made)) =
      kv ::ₘ s.held := by
    refine add_right_cancel (b := h.held) ((sumOf_set_add _ hi _).trans ?_)
    rw [CAsyncServiceHandler.held, hqueued, hanswering, hcleaning, Multiset.cons_add,
      Multiset.cons_add, Multiset.add_cons, Multiset.cons_add]
    rfl
  have hlive : sumOf CAsyncServiceHandler.live (s.handlers.set i (h.append k call s.made)) =
      kv ::ₘ s.live := by
    refine add_right_cancel (b := h.live) ((sumOf_set_add _ hi _).trans ?_)
    rw [CAsyncServiceHandler.live, hstrays, horder, coe_concat, Multiset.cons_add,
      Multiset.add_cons, Multiset.cons_add]
    rfl
  have hfresh : kv ∉ h.queued := fun hin ↦ absurd
    (hs.accounts.held_fresh (Multiset.mem_of_le (queued_le_held hh) hin)) (Nat.lt_irrefl _)
  refine ⟨?_, fun g hg ↦ ?_⟩
  · show Accounts (sumOf CAsyncServiceHandler.held _) (sumOf CAsyncServiceHandler.live _) _ _
    rw [hheld, hlive]
    exact hs.accounts.make rfl
  · rcases List.mem_or_eq_of_mem_set hg with hg | rfl
    · exact hs.lined g hg
    · refine ⟨?_, fun a ha ↦ ?_, fun other hother ↦ ?_⟩
      · rw [hstrays, horder]
        exact append_aligned hl hfree hC hfresh
      · have hin : a ∈ kv ::ₘ (h.queued : Multiset (Entry κ)) := hqueued ▸ ha
        rcases Multiset.mem_cons.1 hin with rfl | hin
        · exact hl.entering_ids call (List.mem_of_getElem? hcall)
        · exact hl.ids a hin
      · refine hl.entering_ids other (List.mem_of_mem_eraseIdx (i := k) ?_)
        obtain ⟨reqId, rcb, - | -⟩ := call <;> exact hother

/-- **A handler is appended to another one.** -/
theorem appendTo_sound (hs : Sound s) {other : CAsyncServiceHandler κ}
    (hi : s.handlers[i]? = some h) (hj : s.handlers[j]? = some other) (hne : i ≠ j)
    (hC : h.Merges other) : Sound (s.AppendTo i j h other) := by
  have hh := List.mem_of_getElem? hi
  have hother := List.mem_of_getElem? hj
  have hl := hs.lined h hh
  have hlo := hs.lined other hother
  let merged := { other with
    m_kvCallback := other.m_kvCallback ++ h.m_kvCallback
    core := other.core.takeOver h.core.wire }
  let emptied := { h with m_kvCallback := [], core := { h.core with wire := [] } }
  have horder : merged.order =
      entries other.core.wire ++ entries h.core.wire ++ other.unwritten := by
    rw [order_eq]
    exact congrArg (· ++ _) (entries_append _ _)
  have hrest : emptied.order = h.unwritten := order_eq _
  have hlive : emptied.live + merged.live = h.live + other.live := by
    simp only [CAsyncServiceHandler.live]
    rw [hrest, horder, order_eq, order_eq, ← Multiset.coe_add, ← Multiset.coe_add,
      ← Multiset.coe_add, ← Multiset.coe_add]
    show _ + (h.strays : Multiset (Entry κ)) + (_ + (other.strays : Multiset (Entry κ))) = _
    abel
  have hheld : emptied.held + merged.held = h.held + other.held := by
    simp only [CAsyncServiceHandler.held, CAsyncServiceHandler.queued, merged, emptied,
      ← Multiset.coe_add, Multiset.coe_nil]
    abel
  have hboth : (h.live + other.live).Nodup :=
    Multiset.nodup_of_le (add_le_sumOf hi hj hne) hs.accounts.nodup.of_map
  have hnodup := (Multiset.nodup_add.1 (hs.live_nodup hh)).1
  have hliveSum := sumOf_set_set CAsyncServiceHandler.live hi hj hne hlive
  have hheldSum := sumOf_set_set CAsyncServiceHandler.held hi hj hne hheld
  have haligned : Aligned merged.queued merged.order merged.strays := by
    rw [horder]
    refine Aligned.merge (order_eq other ▸ hlo.aligned)
      (order_eq h ▸ hl.aligned.inLine.of_sublist (List.sublist_append_left _ _))
      (order_eq other ▸ (Multiset.nodup_add.1 (hs.live_nodup hother)).1) (order_eq h ▸ hnodup)
      (fun a ha hwire ↦ ?_) hC.2
    -- an entry has one handler only
    have hin : a ∈ h.live := Multiset.mem_add.2 (.inl (by
      rw [order_eq]
      exact List.mem_append_left _ hwire))
    have hin' : a ∈ other.live := Multiset.mem_add.2 (hlo.aligned.known a ha)
    exact Multiset.disjoint_left.1 (Multiset.nodup_add.1 hboth).2.2 hin hin'
  have hleft : Aligned emptied.queued emptied.order emptied.strays := by
    rw [hrest]
    refine hl.aligned.shrink hnodup (List.sublist_append_right _ _)
      (by rw [order_eq]; exact List.sublist_append_right _ _) (fun a ha hin hnot ↦ ?_)
      fun a _ ha ↦ ha
    rw [order_eq] at hin
    exact absurd ((List.mem_append.1 hin).resolve_right hnot) (hC.1 a ha)
  refine ⟨?_, fun g hg ↦ ?_⟩
  · show Accounts (sumOf CAsyncServiceHandler.held _) (sumOf CAsyncServiceHandler.live _) _ _
    rw [State.AppendTo, hheldSum, hliveSum]
    exact hs.accounts
  · rcases List.mem_or_eq_of_mem_set hg with hg | rfl
    · rcases List.mem_or_eq_of_mem_set hg with hg | rfl
      · exact hs.lined g hg
      · refine ⟨haligned, fun kv hkv ↦ ?_, hlo.entering_ids⟩
        rcases List.mem_append.1 hkv with hkv | hkv
        · exact (List.mem_append.1 hkv).elim (fun hin ↦ hlo.ids kv (List.mem_append_left _ hin))
            fun hin ↦ hl.ids kv (List.mem_append_left _ hin)
        · exact hlo.ids kv (List.mem_append_right _ hkv)
    · exact ⟨hleft, fun kv hkv ↦ hl.ids kv (List.mem_append_right _ hkv), hl.entering_ids⟩

theorem newHandler_sound (hs : Sound s) : Sound { s with handlers := s.handlers ++ [.new] } := by
  have hlive : sumOf CAsyncServiceHandler.live (s.handlers ++ [.new]) = s.live := by
    rw [sumOf_concat]
    exact Multiset.zero_add _
  have hheld : sumOf CAsyncServiceHandler.held (s.handlers ++ [.new]) = s.held := by
    rw [sumOf_concat]
    exact Multiset.zero_add _
  refine ⟨?_, fun g hg ↦ ?_⟩
  · show Accounts (sumOf CAsyncServiceHandler.held _) (sumOf CAsyncServiceHandler.live _) _ _
    rw [hheld, hlive]
    exact hs.accounts
  · rcases List.mem_append.1 hg with hg | hg
    · exact hs.lined g hg
    · obtain rfl := List.mem_singleton.1 hg
      exact ⟨.nil, fun _ hkv ↦ absurd hkv List.not_mem_nil, fun _ hcall ↦ absurd hcall
        List.not_mem_nil⟩

/-- **One step.** -/
theorem step_sound (hs : Sound s) (a : Action κ) (hC : s.Orderly a) (ht : s.step a = some t) :
    Sound t := by
  cases a with
  | newHandler =>
    obtain rfl := Option.some.inj ht
    exact newHandler_sound hs
  | append i k =>
    obtain ⟨h, hi, ht⟩ := Option.bind_eq_some_iff.1 ht
    obtain ⟨call, hcall, ht⟩ := Option.bind_eq_some_iff.1 ht
    obtain ⟨hfree, ht⟩ := Option.ite_none_right_eq_some.1 ht
    obtain rfl := Option.some.inj ht
    exact append_sound hs hi hcall hfree (hC h hi call hcall)
  | on i op =>
    obtain ⟨h, hi, ht⟩ := Option.bind_eq_some_iff.1 ht
    obtain ⟨⟨h', e⟩, hact, rfl⟩ := Option.map_eq_some_iff.1 ht
    have hh := List.mem_of_getElem? hi
    exact on_sound hs hi (act_proper (hs.lined h hh) (hs.live_nodup hh) (hs.queued_nodup hh) op
      (hC h hi) hact)
  | appendTo i j =>
    rw [State.step] at ht
    split at ht
    · next h other hi hj =>
      obtain ⟨hne, ht⟩ := Option.ite_none_left_eq_some.1 ht
      obtain rfl := Option.some.inj ht
      exact appendTo_sound hs hi hj hne (hC h hi other hj)
    · exact nomatch ht

theorem Sound.oneOutcome (hs : Sound s) : s.OneOutcome where
  toOneOutcome := hs.accounts.oneOutcome
  order h hh := by
    have hline := (hs.lined h hh).aligned.inLine.of_sublist (List.sublist_append_left _ _)
    have hnodup : h.order.Nodup := (Multiset.nodup_add.1 (hs.live_nodup hh)).1
    exact hline.to_sublist hnodup (by rw [order_eq]; exact List.sublist_append_left _ _)

/-- **One outcome for each request**: in every run in which the calls meet the conditions. -/
theorem pythonHandlers_one_outcome (as : List (Action κ))
    (hin : Within State.step State.Orderly State.start as)
    (hrun : run State.step State.start as = some t) : t.OneOutcome :=
  (invariant_of_within (I := Sound) (fun _ a _ hs hC hstep ↦ step_sound hs a hC hstep) as start_sound
    hin hrun).oneOutcome

/-- Two handlers. The first request is refused and popped. The second and the third one are in
batches, one given up and one written; the third one is answered after its handler has been appended
to the other one. The fourth one is left to `CleanCallbacks`. -/
def someActions : List (Action ℕ) :=
  [.newHandler, .newHandler, .on 0 (.enter 0x2101 ⟨some 1, none, none⟩), .append 0 0,
    .on 0 (.send false), .on 0 (.pop 0), .on 0 .startBatching, .on 0 (.coreStartBatching true),
    .on 0 (.enter 0x2102 ⟨some 2, some 3, none⟩), .append 0 0, .on 0 (.send true),
    .on 0 .abortBatching, .on 0 (.coreAbortBatching true), .on 0 .startBatching,
    .on 0 (.coreStartBatching true), .on 0 (.enter 0x2103 ⟨some 4, none, some 5⟩), .append 0 0,
    .on 0 (.send true), .on 0 .commitBatching, .on 0 (.coreCommitBatching .written),
    .appendTo 0 1, .on 1 (.respond .exception), .on 1 (.answer 0),
    .on 1 (.enter 0x2104 ⟨some 6, some 7, none⟩), .append 1 0, .on 1 (.send true), .on 1 .clean,
    .on 1 (.discard 0 false)]

theorem pythonHandlers_one_outcome_someActions :
    ∃ t : State ℕ, run State.step State.start someActions = some t ∧ t.OneOutcome ∧
      t.events.invoked = [(1, .Discarded 3 true), (2, .ExceptionFromServer 5),
        (3, .Discarded 7 false)] :=
  ⟨_, rfl, pythonHandlers_one_outcome someActions (by decide) rfl, rfl⟩

/-- **A failed call pops the entry of another request**, appended and sent before its own pop. -/
theorem pops_another :
    ¬ ∀ (as : List (Action ℕ)) (t : State ℕ), run State.step State.start as = some t →
      t.OneOutcome := by
  intro hall
  have hone := hall [.newHandler, .on 0 (.enter 0x2101 ⟨some 1, none, none⟩), .append 0 0,
    .on 0 (.send false), .on 0 (.enter 0x2102 ⟨some 2, none, none⟩), .append 0 0,
    .on 0 (.send true), .on 0 (.pop 0)] _ rfl
  have hown := hone.ownEntry (⟨⟨0x2101, ⟨some 1, none, none⟩, 0⟩, false⟩,
    [⟨0x2102, ⟨some 2, none, none⟩, 1⟩]) List.mem_cons_self
  exact absurd hown (by decide)

end SocketPro.Python.AsyncHandler
