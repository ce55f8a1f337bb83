import SocketPro.Foundation.Run
import SocketPro.Client.AsyncServiceHandler
import Mathlib.Data.List.Nodup
import Mathlib.Data.List.Perm.Basic
import Mathlib.Order.Basic

/-!
# Batching keeps the callback order

Several threads share one handler. A request with callbacks goes through the windows of
`SendRequest`: it reads `IsBatching`, then takes `m_csSend`, queues its pair under `m_cs` and calls
the core, and cleans up when the core refused it. `CommitBatching` and `AbortBatching` change the
callback queues under `m_cs` first and call the core afterwards. The core appends a request to its
batch when batching is on at the moment of its `SendRequest` and writes it otherwise; its
`CommitBatching` writes the batch.

Threads have no identity in the code, so the state lists the calls in progress by the point they
have reached; any number of threads is covered.

**Where the windows matter.** The flag is read before `m_csSend` is taken, and the queues are
changed before the core is told. `Exclusive` says that no batching call falls into the window of
another call that it can hurt:

* batching is turned on while no send is between its flag and its core call, and no commit or abort
  is between its halves;
* a commit or an abort takes the batched callbacks while no batched send is unfinished;
* no send reads the flag between the halves of a commit or an abort that ends a batch.

**The order is kept** (`order_kept`) in every run of that kind, by any number of threads.
-/

namespace SocketPro.Client

variable {κ : Type*}

/-- A call of `SendRequest` with callbacks: the pair it registers, which stands for the request as
well, and what `IsBatching` returned. -/
structure PendingSend (κ : Type*) where
  pair : RRPair κ
  batching : Bool
  deriving DecidableEq

/-- A handler shared by threads, the calls in progress and the core's batch and wire. -/
structure BatchedConnection (κ : Type*) where
  handler : CAsyncServiceHandler κ
  /-- `IsBatching` is read, `m_csSend` not yet taken. -/
  reading : List (PendingSend κ)
  /-- The holder of `m_csSend`: its callback is queued, the core not yet called. -/
  sending : Option (PendingSend κ)
  /-- The core refused the request, its callback is not yet removed. -/
  refused : List (PendingSend κ)
  /-- Calls of `CommitBatching` before their core call. -/
  moved : ℕ
  /-- Calls of `AbortBatching` before their core call. -/
  cleaned : ℕ
  /-- The core's batching mode. -/
  batching : Bool
  /-- The requests batched inside the core. -/
  batch : List (RRPair κ)
  /-- The requests written. -/
  wire : List (RRPair κ)
  /-- The callbacks that calls of `AbortBatching` discarded. -/
  discarded : List (RRPair κ)
  /-- The requests that the core dropped. -/
  dropped : List (RRPair κ)
  deriving DecidableEq

/-- The steps of the threads. -/
inductive BatchAction (κ : Type*) where
  /-- `SendRequest` with callbacks, up to the core's `IsBatching`. -/
  | enter (reqId : UInt16) (cb : CResultCb κ)
  /-- The `i`-th reading call takes `m_csSend` and queues its pair. -/
  | push (i : ℕ)
  /-- The core's `SendRequest`; `m_csSend` is released. -/
  | send (sent : Bool)
  /-- The `i`-th refused call removes its pair. -/
  | giveUp (i : ℕ)
  | startBatching
  /-- `CommitBatching`, the part under `m_cs`. -/
  | moveBatched
  /-- `CommitBatching`, the core call. -/
  | coreCommit
  /-- `AbortBatching`, the part under `m_cs`. -/
  | cleanBatched
  /-- `AbortBatching`, the core call. -/
  | coreAbort
  deriving DecidableEq

namespace BatchedConnection

/-- One step; `none` when the action is not enabled. -/
def step (s : BatchedConnection κ) : BatchAction κ → Option (BatchedConnection κ)
  | .enter reqId cb =>
    if reqId ≤ idReservedTwo then some s
    else if cb.given then
      let o := s.handler.reuse reqId cb
      some { s with handler := o.2, reading := s.reading ++ [⟨o.1, s.batching⟩] }
    else none
  | .push i =>
    match s.sending, s.reading[i]? with
    | none, some c =>
      some { s with
        handler := s.handler.push c.batching c.pair
        reading := s.reading.eraseIdx i
        sending := some c }
    | _, _ => none
  | .send sent =>
    match s.sending with
    | some c =>
      if sent then
        if s.batching then some { s with sending := none, batch := s.batch ++ [c.pair] }
        else some { s with sending := none, wire := s.wire ++ [c.pair] }
      else some { s with sending := none, refused := s.refused ++ [c] }
    | none => none
  | .giveUp i =>
    match s.refused[i]? with
    | some c =>
      some { s with
        handler := s.handler.remove c.batching c.pair
        refused := s.refused.eraseIdx i }
    | none => none
  | .startBatching => some { s with batching := true }
  | .moveBatched => some { s with handler := s.handler.commitBatching, moved := s.moved + 1 }
  | .coreCommit =>
    match s.moved with
    | 0 => none
    | n + 1 =>
      some { s with moved := n, batching := false, wire := s.wire ++ s.batch, batch := [] }
  | .cleanBatched =>
    some { s with
      handler := s.handler.abortBatching
      discarded := s.discarded ++ s.handler.vBatching
      cleaned := s.cleaned + 1 }
  | .coreAbort =>
    match s.cleaned with
    | 0 => none
    | n + 1 =>
      some { s with cleaned := n, batching := false, dropped := s.dropped ++ s.batch, batch := [] }

/-- A fresh handler on a connection that is not batching. -/
def initial (fresh : ℕ) : BatchedConnection κ :=
  ⟨⟨[], [], [], fresh⟩, [], none, [], 0, 0, false, [], [], [], []⟩

/-- No call of `SendRequest` that read batching as on is unfinished. -/
def NoBatchedSend (s : BatchedConnection κ) : Prop :=
  ∀ c ∈ s.reading ++ s.sending.toList ++ s.refused, c.batching = false

/-- The action falls into no window of another call that it can hurt. -/
def Exclusive (s : BatchedConnection κ) : BatchAction κ → Prop
  | .enter _ _ => s.batching = true → s.moved = 0 ∧ s.cleaned = 0
  | .startBatching =>
    s.batching = false → s.reading = [] ∧ s.sending = none ∧ s.moved = 0 ∧ s.cleaned = 0
  | .moveBatched => s.batching = true → s.NoBatchedSend ∧ s.cleaned = 0
  | .cleanBatched => s.batching = true → s.NoBatchedSend ∧ s.moved = 0
  | _ => True

instance (s : BatchedConnection κ) : Decidable s.NoBatchedSend := by
  unfold NoBatchedSend
  infer_instance

instance [DecidableEq κ] (s : BatchedConnection κ) (a : BatchAction κ) :
    Decidable (s.Exclusive a) := by
  cases a <;> unfold Exclusive <;> infer_instance

/-- The addresses of the callbacks that refused calls are about to remove. -/
def refusedAddrs (s : BatchedConnection κ) : List ℕ :=
  s.refused.map fun c ↦ c.pair.addr

/-- The entries of a queue that no refused call is about to remove. -/
def live (s : BatchedConnection κ) (q : List (RRPair κ)) : List (RRPair κ) :=
  q.filter fun p ↦ p.addr ∉ s.refusedAddrs

/-- **Callbacks and wire agree.** -/
structure OrderKept (s : BatchedConnection κ) : Prop where
  /-- The callbacks in `m_vCallback` begin with those of the written requests, in wire order. -/
  moved_prefix : s.wire <+: s.live s.handler.vCallback
  /-- They are exactly those, unless a send or a commit is just before its core call. -/
  moved_eq : s.sending = none → s.moved = 0 → s.live s.handler.vCallback = s.wire
  /-- An abort discards nothing that the core keeps. -/
  dropped_prefix : s.dropped <+: s.discarded
  /-- It discards exactly what the core drops. -/
  dropped_eq : s.cleaned = 0 → s.discarded = s.dropped
  /-- No callback stays in `m_vBatching` once its request is on the wire. -/
  batched : ∀ p ∈ s.handler.vBatching, p ∉ s.wire

/-! ### Who holds a pair -/

/-- How often an address is in use: held by a reading call, queued, or waiting in the pool. -/
def uses (s : BatchedConnection κ) (a : ℕ) : ℕ :=
  (s.reading.map fun c ↦ c.pair.addr).count a + (s.handler.vCallback.map RRPair.addr).count a +
    (s.handler.vBatching.map RRPair.addr).count a + s.handler.rrStack.count a

/-- Every pair has one holder, and the pairs of refused calls are still queued. -/
structure Owned (s : BatchedConnection κ) : Prop where
  once : ∀ a, s.uses a ≤ 1
  fresh : ∀ a, s.handler.fresh ≤ a → s.uses a = 0
  refused_mem : ∀ c ∈ s.refused, c.pair ∈ s.handler.queueOf c.batching
  refused_nodup : s.refusedAddrs.Nodup

/-- The callback of the holder of `m_csSend`. -/
def inCall (s : BatchedConnection κ) : List (RRPair κ) :=
  s.sending.toList.map PendingSend.pair

/-- **The invariant**, by what the threads are doing to the core's batch. -/
inductive Phase (s : BatchedConnection κ) : Prop where
  /-- Not batching: sends go straight to the wire. -/
  | off (hb : s.batching = false) (hcalls : s.NoBatchedSend) (hbatch : s.batch = [])
    (hVB : s.handler.vBatching = []) (hVC : s.live s.handler.vCallback = s.wire ++ s.inCall)
    (hdis : s.discarded = s.dropped)
  /-- Batching: sends are collected. -/
  | on (hb : s.batching = true) (hmoved : s.moved = 0) (hcleaned : s.cleaned = 0)
    (hcalls : ∀ c ∈ s.reading ++ s.sending.toList, c.batching = true)
    (hVC : s.live s.handler.vCallback = s.wire)
    (hVB : s.live s.handler.vBatching = s.batch ++ s.inCall)
    (hdis : s.discarded = s.dropped)
  /-- Batching, and the callbacks of the batch are moved already. -/
  | committing (hb : s.batching = true) (hmoved : 0 < s.moved) (hcleaned : s.cleaned = 0)
    (hread : s.reading = []) (hsend : s.sending = none) (hcalls : s.NoBatchedSend)
    (hVB : s.handler.vBatching = []) (hVC : s.live s.handler.vCallback = s.wire ++ s.batch)
    (hdis : s.discarded = s.dropped)
  /-- Batching, and the callbacks of the batch are discarded already. -/
  | aborting (hb : s.batching = true) (hmoved : s.moved = 0) (hcleaned : 0 < s.cleaned)
    (hread : s.reading = []) (hsend : s.sending = none) (hcalls : s.NoBatchedSend)
    (hVB : s.handler.vBatching = []) (hVC : s.live s.handler.vCallback = s.wire)
    (hdis : s.discarded = s.dropped ++ s.batch)

variable {s t : BatchedConnection κ}

/-- Steps of the core do not change who holds a pair. -/
theorem Owned.of_same (hs : s.Owned) (hhandler : t.handler = s.handler)
    (hreading : t.reading = s.reading) (hrefused : t.refused = s.refused) : t.Owned := by
  have huses : ∀ a, t.uses a = s.uses a := fun a ↦ by simp only [uses, hhandler, hreading]
  refine ⟨fun a ↦ huses a ▸ hs.once a, fun a ha ↦ huses a ▸ hs.fresh a (hhandler ▸ ha), ?_, ?_⟩
  · rw [hrefused, hhandler]
    exact hs.refused_mem
  · rw [refusedAddrs, hrefused]
    exact hs.refused_nodup

theorem Owned.refused_used (hs : s.Owned) {c : PendingSend κ} (hc : c ∈ s.refused) :
    1 ≤ (s.handler.vCallback.map RRPair.addr).count c.pair.addr +
      (s.handler.vBatching.map RRPair.addr).count c.pair.addr := by
  have hmem := hs.refused_mem c hc
  unfold CAsyncServiceHandler.queueOf at hmem
  split at hmem
  · have := List.count_pos_iff.2 (List.mem_map_of_mem (f := RRPair.addr) hmem)
    omega
  · have := List.count_pos_iff.2 (List.mem_map_of_mem (f := RRPair.addr) hmem)
    omega

/-- The pair of a reading call is no refused call's pair. -/
theorem Owned.reading_not_refused (hs : s.Owned) {c : PendingSend κ} (hc : c ∈ s.reading) :
    c.pair.addr ∉ s.refusedAddrs := by
  rintro hmem
  obtain ⟨d, hd, haddr⟩ := List.mem_map.1 hmem
  have hused := hs.refused_used hd
  have hread := List.count_pos_iff.2
    (List.mem_map_of_mem (f := fun c : PendingSend κ ↦ c.pair.addr) hc)
  have honce := hs.once c.pair.addr
  rw [haddr] at hused
  unfold uses at honce
  omega

/-- Taking the `i`-th element out of a list, seen by the counts of its addresses. -/
theorem count_addr_eraseIdx {q : List (PendingSend κ)} {i : ℕ} {c : PendingSend κ}
    (hc : q[i]? = some c) (a : ℕ) :
    (q.map fun c ↦ c.pair.addr).count a =
      ((q.eraseIdx i).map fun c ↦ c.pair.addr).count a + [c.pair.addr].count a := by
  obtain ⟨hi, rfl⟩ := List.getElem?_eq_some_iff.1 hc
  have hperm := (List.getElem_cons_eraseIdx_perm hi).map fun c : PendingSend κ ↦ c.pair.addr
  rw [← hperm.count_eq, List.map_cons, List.count_cons, List.count_singleton]

theorem count_addr_filter_ne (q : List (RRPair κ)) (addr a : ℕ) :
    ((q.filter fun p ↦ p.addr ≠ addr).map RRPair.addr).count a =
      if a = addr then 0 else (q.map RRPair.addr).count a := by
  induction q with
  | nil => simp
  | cons p q ih =>
    by_cases hp : p.addr = addr
    · rw [List.filter_cons_of_neg (by simp [hp]), ih, List.map_cons, List.count_cons]
      split
      · rfl
      · rw [if_neg (by simp only [beq_iff_eq]; omega), Nat.add_zero]
    · rw [List.filter_cons_of_pos (by simp [hp]), List.map_cons, List.map_cons, List.count_cons,
        List.count_cons, ih]
      split
      · rw [if_neg (by simp only [beq_iff_eq]; omega)]
      · rfl

/-- The addresses of the refused calls when the `i`-th is done. -/
theorem refusedAddrs_perm {i : ℕ} {c : PendingSend κ} (hc : s.refused[i]? = some c) :
    s.refusedAddrs.Perm (c.pair.addr :: (s.refused.eraseIdx i).map fun c ↦ c.pair.addr) := by
  obtain ⟨hi, rfl⟩ := List.getElem?_eq_some_iff.1 hc
  exact ((List.getElem_cons_eraseIdx_perm hi).map fun c : PendingSend κ ↦ c.pair.addr).symm

/-! ### One step -/

theorem enter_owned (hs : s.Owned) (reqId : UInt16) (cb : CResultCb κ) (b : Bool) :
    Owned { s with
      handler := (s.handler.reuse reqId cb).2
      reading := s.reading ++ [⟨(s.handler.reuse reqId cb).1, b⟩] } := by
  obtain ⟨honce, hfresh, hmem, hnodup⟩ := hs
  rcases hstack : s.handler.rrStack with - | ⟨addr, rest⟩
  · refine ⟨fun a ↦ ?_, fun a ha ↦ ?_, ?_, hnodup⟩
    · have h1 := honce a
      have h2 := hfresh a
      simp only [uses, hstack, List.count_nil] at h1 h2
      simp only [uses, CAsyncServiceHandler.reuse, hstack, List.map_append, List.count_append,
        List.map_cons, List.map_nil, List.count_singleton, List.count_nil, beq_iff_eq]
      split
      · have := h2 (by omega)
        omega
      · omega
    · have ha : s.handler.fresh + 1 ≤ a := by
        simpa [CAsyncServiceHandler.reuse, hstack] using ha
      have h2 := hfresh a (by omega)
      simp only [uses, hstack, List.count_nil] at h2
      simp only [uses, CAsyncServiceHandler.reuse, hstack, List.map_append, List.count_append,
        List.map_cons, List.map_nil, List.count_singleton, List.count_nil, beq_iff_eq]
      rw [if_neg (by omega)]
      omega
    · simpa [CAsyncServiceHandler.queueOf] using hmem
  · have huses : ∀ a, uses { s with
        handler := (s.handler.reuse reqId cb).2
        reading := s.reading ++ [⟨(s.handler.reuse reqId cb).1, b⟩] } a = s.uses a := by
      intro a
      simp only [uses, CAsyncServiceHandler.reuse, hstack, List.map_append, List.count_append,
        List.map_cons, List.map_nil, List.count_nil, List.count_cons, beq_iff_eq]
      omega
    refine ⟨fun a ↦ huses a ▸ honce a, fun a ha ↦ huses a ▸ hfresh a ?_, ?_, hnodup⟩
    · simpa [CAsyncServiceHandler.reuse, hstack] using ha
    · simpa [CAsyncServiceHandler.queueOf] using hmem

theorem push_owned (hs : s.Owned) {i : ℕ} {c : PendingSend κ} (hc : s.reading[i]? = some c) :
    Owned { s with
      handler := s.handler.push c.batching c.pair
      reading := s.reading.eraseIdx i
      sending := some c } := by
  obtain ⟨honce, hfresh, hmem, hnodup⟩ := hs
  have huses : ∀ a, uses { s with
      handler := s.handler.push c.batching c.pair
      reading := s.reading.eraseIdx i
      sending := some c } a = s.uses a := by
    intro a
    have hcount := count_addr_eraseIdx hc a
    simp only [uses, hcount, CAsyncServiceHandler.push]
    split <;> simp only [List.map_append, List.count_append, List.map_cons, List.map_nil] <;> omega
  refine ⟨fun a ↦ huses a ▸ honce a, fun a ha ↦ huses a ▸ hfresh a ?_, fun d hd ↦ ?_, hnodup⟩
  · simpa using ha
  · have hd := hmem d hd
    rw [CAsyncServiceHandler.queueOf_push]
    split
    · exact List.mem_append_left _ hd
    · exact hd

/-- The core refuses a request whose callback is still queued. -/
theorem refuse_owned (hs : s.Owned) {c : PendingSend κ}
    (hlive : c.pair ∈ s.live (s.handler.queueOf c.batching)) :
    Owned { s with sending := none, refused := s.refused ++ [c] } := by
  obtain ⟨hqueue, haddr⟩ := List.mem_filter.1 hlive
  refine ⟨hs.once, hs.fresh, fun d hd ↦ ?_, ?_⟩
  · rcases List.mem_append.1 hd with hd | hd
    · exact hs.refused_mem d hd
    · obtain rfl : d = c := by simpa using hd
      exact hqueue
  · have haddr : c.pair.addr ∉ s.refusedAddrs := by simpa using haddr
    have hnodup := hs.refused_nodup
    simp only [refusedAddrs, List.map_append, List.map_cons, List.map_nil] at hnodup haddr ⊢
    rw [List.nodup_append]
    refine ⟨hnodup, List.nodup_singleton _, ?_⟩
    rintro a ha b hb rfl
    exact haddr (by rwa [List.mem_singleton.1 hb] at ha)

/-- What the clean-up of a refused call does to its queue. -/
theorem remove_eq (hs : s.Owned) {c : PendingSend κ} (hc : c ∈ s.refused) :
    s.handler.remove c.batching c.pair =
      (if c.batching then
        { s.handler with vBatching := s.handler.vBatching.filter fun p ↦ p.addr ≠ c.pair.addr }
      else
        { s.handler with vCallback := s.handler.vCallback.filter fun p ↦ p.addr ≠ c.pair.addr }
      ).recycle c.pair := by
  have hmem := hs.refused_mem c hc
  have honce := hs.once c.pair.addr
  unfold uses at honce
  cases hb : c.batching
  · simp only [hb, CAsyncServiceHandler.queueOf, Bool.false_eq_true, if_false] at hmem
    have hpos := List.count_pos_iff.2 (List.mem_map_of_mem (f := RRPair.addr) hmem)
    simp only [CAsyncServiceHandler.remove, Bool.false_eq_true, if_false]
    rw [CAsyncServiceHandler.removeFrom_eq_filter (by omega)]
  · simp only [hb, CAsyncServiceHandler.queueOf, if_true] at hmem
    have hpos := List.count_pos_iff.2 (List.mem_map_of_mem (f := RRPair.addr) hmem)
    simp only [CAsyncServiceHandler.remove, if_true]
    rw [CAsyncServiceHandler.removeFrom_eq_filter (by omega)]

theorem giveUp_owned (hs : s.Owned) {i : ℕ} {c : PendingSend κ} (hc : s.refused[i]? = some c) :
    Owned { s with
      handler := s.handler.remove c.batching c.pair
      refused := s.refused.eraseIdx i } := by
  have hcmem : c ∈ s.refused := List.mem_of_getElem? hc
  have hqueue := hs.refused_mem c hcmem
  have hnodup := (refusedAddrs_perm hc).nodup_iff.1 hs.refused_nodup
  obtain ⟨hcnew, hnodup⟩ := List.nodup_cons.1 hnodup
  have huses : ∀ a, uses { s with
      handler := s.handler.remove c.batching c.pair
      refused := s.refused.eraseIdx i } a = s.uses a := by
    intro a
    have honce := hs.once c.pair.addr
    rw [remove_eq hs hcmem]
    cases hb : c.batching
    all_goals
      simp only [hb, CAsyncServiceHandler.queueOf, Bool.false_eq_true, if_false, if_true] at hqueue
      have hpos := List.count_pos_iff.2 (List.mem_map_of_mem (f := RRPair.addr) hqueue)
      simp only [uses, CAsyncServiceHandler.recycle, Bool.false_eq_true, if_false, if_true,
        count_addr_filter_ne, List.count_cons, beq_iff_eq] at honce ⊢
      split
      · subst a
        rw [if_pos rfl]
        omega
      · rw [if_neg (by omega)]
        omega
  refine ⟨fun a ↦ huses a ▸ hs.once a, fun a ha ↦ huses a ▸ hs.fresh a ?_, fun d hd ↦ ?_, hnodup⟩
  · rw [remove_eq hs hcmem] at ha
    cases hb : c.batching <;> simpa [hb, CAsyncServiceHandler.recycle] using ha
  · have hdq := hs.refused_mem d (List.mem_of_mem_eraseIdx hd)
    have hne : d.pair.addr ≠ c.pair.addr := fun heq ↦
      hcnew (heq ▸ List.mem_map_of_mem (f := fun c : PendingSend κ ↦ c.pair.addr) hd)
    rw [remove_eq hs hcmem]
    cases hb : c.batching <;> cases hdb : d.batching <;>
      simp_all [CAsyncServiceHandler.queueOf, CAsyncServiceHandler.recycle]

/-- `CommitBatching` under `m_cs`, when no batched send waits for its clean-up. -/
theorem moveBatched_owned (hs : s.Owned) (hdirect : ∀ c ∈ s.refused, c.batching = false) (n : ℕ) :
    Owned { s with handler := s.handler.commitBatching, moved := n } := by
  have huses : ∀ a, uses { s with handler := s.handler.commitBatching, moved := n } a =
      s.uses a := by
    intro a
    simp only [uses, CAsyncServiceHandler.commitBatching, List.map_append, List.count_append,
      List.map_nil, List.count_nil]
    omega
  refine ⟨fun a ↦ huses a ▸ hs.once a, fun a ha ↦ huses a ▸ hs.fresh a ha, fun d hd ↦ ?_,
    hs.refused_nodup⟩
  have hdq := hs.refused_mem d hd
  simp only [hdirect d hd, CAsyncServiceHandler.queueOf, Bool.false_eq_true, if_false] at hdq ⊢
  exact List.mem_append_left _ hdq

/-- `AbortBatching` under `m_cs`, when no batched send waits for its clean-up. -/
theorem cleanBatched_owned (hs : s.Owned) (hdirect : ∀ c ∈ s.refused, c.batching = false) (n : ℕ)
    (q : List (RRPair κ)) :
    Owned { s with handler := s.handler.abortBatching, discarded := q, cleaned := n } := by
  have huses : ∀ a, uses { s with
      handler := s.handler.abortBatching, discarded := q, cleaned := n } a = s.uses a := by
    intro a
    simp only [uses, CAsyncServiceHandler.abortBatching, List.count_append, List.map_nil,
      List.count_nil]
    omega
  refine ⟨fun a ↦ huses a ▸ hs.once a, fun a ha ↦ huses a ▸ hs.fresh a ha, fun d hd ↦ ?_,
    hs.refused_nodup⟩
  have hdq := hs.refused_mem d hd
  simp only [hdirect d hd, CAsyncServiceHandler.queueOf, Bool.false_eq_true, if_false] at hdq ⊢
  exact hdq

/-! ### The live entries of a queue -/

theorem live_append (q q' : List (RRPair κ)) : s.live (q ++ q') = s.live q ++ s.live q' :=
  List.filter_append ..

theorem count_live_le (q : List (RRPair κ)) (a : ℕ) :
    ((s.live q).map RRPair.addr).count a ≤ (q.map RRPair.addr).count a :=
  (List.filter_sublist.map RRPair.addr).count_le a

/-- Dropping the entry at an address that only the last one has. -/
theorem filter_ne_of_count {q : List (RRPair κ)} {p : RRPair κ}
    (h : ((q ++ [p]).map RRPair.addr).count p.addr ≤ 1) :
    (q ++ [p]).filter (fun x ↦ x.addr ≠ p.addr) = q := by
  rw [List.map_append, List.count_append, List.map_cons, List.map_nil, List.count_singleton_self]
    at h
  have hnone : p.addr ∉ q.map RRPair.addr := List.count_eq_zero.1 (by omega)
  rw [List.filter_append, List.filter_cons_of_neg (by simp), List.filter_nil, List.append_nil]
  refine List.filter_eq_self.2 fun x hx ↦ ?_
  have hne : x.addr ≠ p.addr := fun heq ↦ hnone (heq ▸ List.mem_map_of_mem hx)
  simpa using hne

theorem filter_ne_of_not_mem {q : List (RRPair κ)} {a : ℕ} (h : (q.map RRPair.addr).count a = 0) :
    q.filter (fun x ↦ x.addr ≠ a) = q := by
  refine List.filter_eq_self.2 fun x hx ↦ ?_
  have hne : x.addr ≠ a := fun heq ↦
    List.count_eq_zero.1 h (heq ▸ List.mem_map_of_mem (f := RRPair.addr) hx)
  simpa using hne

/-- One more refused call. -/
theorem live_refuse (c : PendingSend κ) (q : List (RRPair κ)) :
    live { s with sending := none, refused := s.refused ++ [c] } q =
      (s.live q).filter fun x ↦ x.addr ≠ c.pair.addr := by
  simp only [live, List.filter_filter]
  refine List.filter_congr fun x _ ↦ ?_
  rw [Bool.eq_iff_iff, Bool.and_eq_true, decide_eq_true_iff, decide_eq_true_iff, decide_eq_true_iff]
  simp only [refusedAddrs, List.map_append, List.map_cons, List.map_nil, List.mem_append,
    List.mem_singleton, not_or, ne_eq, and_comm]

/-- The clean-up of a refused call leaves the live entries of both queues as they are. -/
theorem live_giveUp (hs : s.Owned) {i : ℕ} {c : PendingSend κ} (hc : s.refused[i]? = some c)
    (b : Bool) :
    live { s with
        handler := s.handler.remove c.batching c.pair
        refused := s.refused.eraseIdx i } ((s.handler.remove c.batching c.pair).queueOf b) =
      s.live (s.handler.queueOf b) := by
  have hcmem : c ∈ s.refused := List.mem_of_getElem? hc
  have hrefused : ∀ q : List (RRPair κ), live { s with
        handler := s.handler.remove c.batching c.pair
        refused := s.refused.eraseIdx i } (q.filter fun x ↦ x.addr ≠ c.pair.addr) = s.live q := by
    intro q
    simp only [live, List.filter_filter]
    refine List.filter_congr fun x _ ↦ ?_
    have hmem := (refusedAddrs_perm hc).mem_iff (a := x.addr)
    rw [List.mem_cons] at hmem
    rw [Bool.eq_iff_iff, Bool.and_eq_true, decide_eq_true_iff, decide_eq_true_iff,
      decide_eq_true_iff, hmem]
    simp only [refusedAddrs, not_or, ne_eq, and_comm]
  have hqueue : (s.handler.remove c.batching c.pair).queueOf b =
      (s.handler.queueOf b).filter fun x ↦ x.addr ≠ c.pair.addr := by
    have hother : ((s.handler.queueOf !c.batching).map RRPair.addr).count c.pair.addr = 0 := by
      have hmem := hs.refused_mem c hcmem
      have honce := hs.once c.pair.addr
      have hpos := List.count_pos_iff.2 (List.mem_map_of_mem (f := RRPair.addr) hmem)
      unfold uses at honce
      cases hb : c.batching <;>
        simp only [hb, CAsyncServiceHandler.queueOf, Bool.not_false, Bool.not_true,
          Bool.false_eq_true, if_false, if_true] at hpos ⊢ <;> omega
    rw [remove_eq hs hcmem]
    by_cases hb : b = c.batching
    · subst hb
      cases c.batching <;> rfl
    · obtain rfl : b = !c.batching := Bool.eq_not.2 hb
      rw [filter_ne_of_not_mem hother]
      cases c.batching <;> rfl
  rw [hqueue, hrefused]

/-! ### The phases -/

theorem NoBatchedSend.refused (h : s.NoBatchedSend) : ∀ c ∈ s.refused, c.batching = false :=
  fun c hc ↦ h c (List.mem_append_right _ hc)

/-- While batching is on, only the phase with both counters at zero lets a send be in progress. -/
theorem Phase.idle_of_noBatchedSend (hs : s.Phase) (hb : s.batching = true)
    (h : s.NoBatchedSend) : s.reading = [] ∧ s.sending = none := by
  cases hs with
  | off hb' => exact absurd hb (by simp [hb'])
  | on hb hmoved hcleaned hcalls =>
    constructor
    · rw [List.eq_nil_iff_forall_not_mem]
      intro c hc
      have h1 := hcalls c (List.mem_append_left _ hc)
      have h2 := h c (List.mem_append_left _ (List.mem_append_left _ hc))
      exact absurd h1 (by simp [h2])
    · cases hsend : s.sending with
      | none => rfl
      | some c =>
        have h1 := hcalls c (by simp [hsend])
        have h2 := h c (by simp [hsend])
        exact absurd h1 (by simp [h2])
  | committing hb hmoved hcleaned hread hsend => exact ⟨hread, hsend⟩
  | aborting hb hmoved hcleaned hread hsend => exact ⟨hread, hsend⟩

/-- A commit or an abort that may run meets no batched send before its clean-up. -/
theorem Phase.refused_direct (hs : s.Phase) (hC : s.batching = true → s.NoBatchedSend) :
    ∀ c ∈ s.refused, c.batching = false := by
  cases hs with
  | off hb hcalls => exact hcalls.refused
  | on hb => exact (hC hb).refused
  | committing hb hmoved hcleaned hread hsend hcalls => exact hcalls.refused
  | aborting hb hmoved hcleaned hread hsend hcalls => exact hcalls.refused

theorem enter_phase (hs : s.Phase) (reqId : UInt16) (cb : CResultCb κ)
    (hC : s.batching = true → s.moved = 0 ∧ s.cleaned = 0) :
    Phase { s with
      handler := (s.handler.reuse reqId cb).2
      reading := s.reading ++ [⟨(s.handler.reuse reqId cb).1, s.batching⟩] } := by
  cases hs with
  | off hb hcalls hbatch hVB hVC hdis =>
    refine .off hb ?_ hbatch (by simpa using hVB) ?_ hdis
    · intro c hc
      simp only [List.append_assoc, List.mem_append, List.mem_singleton] at hc
      rcases hc with hc | rfl | hc
      · exact hcalls c (by simp [hc])
      · exact hb
      · exact hcalls c (by simp only [List.mem_append]; tauto)
    · simpa [live, refusedAddrs, inCall] using hVC
  | on hb hmoved hcleaned hcalls hVC hVB hdis =>
    refine .on hb hmoved hcleaned ?_ ?_ ?_ hdis
    · intro c hc
      simp only [List.append_assoc, List.mem_append, List.mem_singleton] at hc
      rcases hc with hc | rfl | hc
      · exact hcalls c (by simp [hc])
      · exact hb
      · exact hcalls c (by simp only [List.mem_append]; tauto)
    · simpa [live, refusedAddrs] using hVC
    · simpa [live, refusedAddrs, inCall] using hVB
  | committing hb hmoved => exact absurd (hC hb).1 (by omega)
  | aborting hb hmoved hcleaned => exact absurd (hC hb).2 (by omega)

theorem push_phase (ho : s.Owned) (hs : s.Phase) {i : ℕ} {c : PendingSend κ}
    (hc : s.reading[i]? = some c) (hsend : s.sending = none) :
    Phase { s with
      handler := s.handler.push c.batching c.pair
      reading := s.reading.eraseIdx i
      sending := some c } := by
  have hcmem : c ∈ s.reading := List.mem_of_getElem? hc
  have hlive : ∀ q : List (RRPair κ), live { s with
      handler := s.handler.push c.batching c.pair
      reading := s.reading.eraseIdx i
      sending := some c } (q ++ [c.pair]) = s.live q ++ [c.pair] := by
    intro q
    have hnot := ho.reading_not_refused hcmem
    change s.live (q ++ [c.pair]) = _
    rw [live_append]
    simp [live, hnot]
  have hcalls' : ∀ b, (∀ d ∈ s.reading, d.batching = b) →
      ∀ d ∈ s.reading.eraseIdx i ++ [c], d.batching = b := by
    intro b h d hd
    rcases List.mem_append.1 hd with hd | hd
    · exact h d (List.mem_of_mem_eraseIdx hd)
    · rw [List.mem_singleton.1 hd]
      exact h c hcmem
  cases hs with
  | off hb hcalls hbatch hVB hVC hdis =>
    have hread : ∀ d ∈ s.reading, d.batching = false := fun d hd ↦ hcalls d (by simp [hd])
    refine .off hb ?_ hbatch ?_ ?_ hdis
    · intro d hd
      rcases List.mem_append.1 hd with hd | hd
      · exact hcalls' false hread d hd
      · exact hcalls.refused d hd
    · simpa [CAsyncServiceHandler.push, hread c hcmem] using hVB
    · simp only [CAsyncServiceHandler.push, hread c hcmem, Bool.false_eq_true, if_false]
      rw [inCall, hsend] at hVC
      simpa [inCall, hVC, CAsyncServiceHandler.push, hread c hcmem] using hlive s.handler.vCallback
  | on hb hmoved hcleaned hcalls hVC hVB hdis =>
    have hread : ∀ d ∈ s.reading, d.batching = true := fun d hd ↦ hcalls d (by simp [hd])
    refine .on hb hmoved hcleaned (hcalls' true hread) ?_ ?_ hdis
    · simpa [CAsyncServiceHandler.push, hread c hcmem, live, refusedAddrs] using hVC
    · simp only [CAsyncServiceHandler.push, hread c hcmem, if_true]
      rw [inCall, hsend] at hVB
      simpa [inCall, hVB, CAsyncServiceHandler.push, hread c hcmem] using
        hlive s.handler.vBatching
  | committing hb hmoved hcleaned hread => simp [hread] at hc
  | aborting hb hmoved hcleaned hread => simp [hread] at hc

/-- The core takes the request, into its batch or onto the wire. -/
theorem sent_phase (hs : s.Phase) {c : PendingSend κ} (hsend : s.sending = some c) :
    Phase (if s.batching then { s with sending := none, batch := s.batch ++ [c.pair] }
      else { s with sending := none, wire := s.wire ++ [c.pair] }) := by
  cases hs with
  | off hb hcalls hbatch hVB hVC hdis =>
    rw [if_neg (by simp [hb])]
    refine .off hb ?_ hbatch hVB ?_ hdis
    · intro d hd
      simp only [Option.toList_none, List.append_nil, List.mem_append] at hd
      exact hcalls d (by simp only [List.mem_append]; tauto)
    · simpa [inCall, hsend, live, refusedAddrs] using hVC
  | on hb hmoved hcleaned hcalls hVC hVB hdis =>
    rw [if_pos hb]
    refine .on hb hmoved hcleaned ?_ hVC ?_ hdis
    · intro d hd
      exact hcalls d (List.mem_append_left _ (by simpa using hd))
    · simpa [inCall, hsend, live, refusedAddrs] using hVB
  | committing hb hmoved hcleaned hread hsend' => simp [hsend'] at hsend
  | aborting hb hmoved hcleaned hread hsend' => simp [hsend'] at hsend

/-- The callback of the holder of `m_csSend` is queued where its flag says. -/
theorem Phase.inCall_mem (hs : s.Phase) {c : PendingSend κ} (hsend : s.sending = some c) :
    c.pair ∈ s.live (s.handler.queueOf c.batching) := by
  cases hs with
  | off hb hcalls hbatch hVB hVC =>
    have hc : c.batching = false := hcalls c (by simp [hsend])
    simp [CAsyncServiceHandler.queueOf, hc, hVC, inCall, hsend]
  | on hb hmoved hcleaned hcalls hVC hVB =>
    have hc : c.batching = true := hcalls c (by simp [hsend])
    simp [CAsyncServiceHandler.queueOf, hc, hVB, inCall, hsend]
  | committing hb hmoved hcleaned hread hsend' => simp [hsend'] at hsend
  | aborting hb hmoved hcleaned hread hsend' => simp [hsend'] at hsend

/-- The core refuses the request. -/
theorem refused_phase (ho : s.Owned) (hs : s.Phase) {c : PendingSend κ}
    (hsend : s.sending = some c) :
    Phase { s with sending := none, refused := s.refused ++ [c] } := by
  have hqueue := (List.mem_filter.1 (hs.inCall_mem hsend)).1
  have honce := ho.once c.pair.addr
  have hpos := List.count_pos_iff.2 (List.mem_map_of_mem (f := RRPair.addr) hqueue)
  unfold uses at honce
  cases hs with
  | off hb hcalls hbatch hVB hVC hdis =>
    refine .off hb ?_ hbatch hVB ?_ hdis
    · intro d hd
      simp only [Option.toList_none, List.append_nil, List.mem_append, List.mem_singleton] at hd
      refine hcalls d ?_
      simp only [hsend, Option.toList_some, List.mem_append, List.mem_singleton]
      tauto
    · have hle : ((s.live s.handler.vCallback).map RRPair.addr).count c.pair.addr ≤ 1 :=
        Nat.le_trans (count_live_le _ _) (by omega)
      rw [hVC, inCall, hsend] at hle
      rw [live_refuse, hVC, inCall, hsend]
      exact (filter_ne_of_count hle).trans (List.append_nil _).symm
  | on hb hmoved hcleaned hcalls hVC hVB hdis =>
    have hc : c.batching = true := hcalls c (by simp [hsend])
    rw [hc] at hpos
    simp only [CAsyncServiceHandler.queueOf, if_true] at hpos
    refine .on hb hmoved hcleaned ?_ ?_ ?_ hdis
    · intro d hd
      exact hcalls d (List.mem_append_left _ (by simpa using hd))
    · have hle := count_live_le (s := s) s.handler.vCallback c.pair.addr
      rw [live_refuse, filter_ne_of_not_mem (q := s.live s.handler.vCallback) (by omega)]
      exact hVC
    · have hle : ((s.live s.handler.vBatching).map RRPair.addr).count c.pair.addr ≤ 1 :=
        Nat.le_trans (count_live_le _ _) (by omega)
      rw [hVB, inCall, hsend] at hle
      rw [live_refuse, hVB, inCall, hsend]
      exact (filter_ne_of_count hle).trans (List.append_nil _).symm
  | committing hb hmoved hcleaned hread hsend' => simp [hsend'] at hsend
  | aborting hb hmoved hcleaned hread hsend' => simp [hsend'] at hsend

theorem giveUp_phase (ho : s.Owned) (hs : s.Phase) {i : ℕ} {c : PendingSend κ}
    (hc : s.refused[i]? = some c) :
    Phase { s with
      handler := s.handler.remove c.batching c.pair
      refused := s.refused.eraseIdx i } := by
  have hVC' := live_giveUp ho hc false
  have hVB' := live_giveUp ho hc true
  simp only [CAsyncServiceHandler.queueOf, Bool.false_eq_true, if_false, if_true] at hVC' hVB'
  have hcalls' : s.NoBatchedSend → NoBatchedSend { s with
      handler := s.handler.remove c.batching c.pair
      refused := s.refused.eraseIdx i } := by
    intro h d hd
    rcases List.mem_append.1 hd with hd | hd
    · exact h d (List.mem_append_left _ hd)
    · exact h d (List.mem_append_right _ (List.mem_of_mem_eraseIdx hd))
  have hVBnil : s.NoBatchedSend → (s.handler.remove c.batching c.pair).vBatching =
      s.handler.vBatching := by
    intro h
    rw [remove_eq ho (List.mem_of_getElem? hc), h.refused c (List.mem_of_getElem? hc)]
    rfl
  cases hs with
  | off hb hcalls hbatch hVB hVC hdis =>
    exact .off hb (hcalls' hcalls) hbatch ((hVBnil hcalls).trans hVB) (hVC'.trans hVC) hdis
  | on hb hmoved hcleaned hcalls hVC hVB hdis =>
    exact .on hb hmoved hcleaned hcalls (hVC'.trans hVC) (hVB'.trans hVB) hdis
  | committing hb hmoved hcleaned hread hsend hcalls hVB hVC hdis =>
    exact .committing hb hmoved hcleaned hread hsend (hcalls' hcalls) ((hVBnil hcalls).trans hVB)
      (hVC'.trans hVC) hdis
  | aborting hb hmoved hcleaned hread hsend hcalls hVB hVC hdis =>
    exact .aborting hb hmoved hcleaned hread hsend (hcalls' hcalls) ((hVBnil hcalls).trans hVB)
      (hVC'.trans hVC) hdis

theorem startBatching_phase (hs : s.Phase)
    (hC : s.batching = false → s.reading = [] ∧ s.sending = none ∧ s.moved = 0 ∧ s.cleaned = 0) :
    Phase { s with batching := true } := by
  cases hs with
  | off hb hcalls hbatch hVB hVC hdis =>
    obtain ⟨hread, hsend, hmoved, hcleaned⟩ := hC hb
    refine .on rfl hmoved hcleaned (by simp [hread, hsend]) ?_ ?_ hdis
    · simpa [inCall, hsend, live, refusedAddrs] using hVC
    · simp [hVB, hbatch, inCall, hsend, live]
  | on hb hmoved hcleaned hcalls hVC hVB hdis =>
    exact .on rfl hmoved hcleaned hcalls hVC hVB hdis
  | committing hb hmoved hcleaned hread hsend hcalls hVB hVC hdis =>
    exact .committing rfl hmoved hcleaned hread hsend hcalls hVB hVC hdis
  | aborting hb hmoved hcleaned hread hsend hcalls hVB hVC hdis =>
    exact .aborting rfl hmoved hcleaned hread hsend hcalls hVB hVC hdis

theorem moveBatched_phase (hs : s.Phase)
    (hC : s.batching = true → s.NoBatchedSend ∧ s.cleaned = 0) :
    Phase { s with handler := s.handler.commitBatching, moved := s.moved + 1 } := by
  have hlive : live { s with handler := s.handler.commitBatching, moved := s.moved + 1 }
      s.handler.commitBatching.vCallback =
        s.live s.handler.vCallback ++ s.live s.handler.vBatching := live_append ..
  cases hs with
  | off hb hcalls hbatch hVB hVC hdis =>
    refine .off hb hcalls hbatch rfl ?_ hdis
    rw [hlive, hVB, hVC]
    exact List.append_nil _
  | on hb hmoved hcleaned hcalls hVC hVB hdis =>
    obtain ⟨hdirect, -⟩ := hC hb
    obtain ⟨hread, hsend⟩ :=
      (Phase.on hb hmoved hcleaned hcalls hVC hVB hdis).idle_of_noBatchedSend hb hdirect
    refine .committing hb (Nat.succ_pos _) hcleaned hread hsend hdirect rfl ?_ hdis
    rw [hlive, hVC, hVB, inCall, hsend]
    simp
  | committing hb hmoved hcleaned hread hsend hcalls hVB hVC hdis =>
    refine .committing hb (Nat.succ_pos _) hcleaned hread hsend hcalls rfl ?_ hdis
    rw [hlive, hVB, hVC]
    exact List.append_nil _
  | aborting hb hmoved hcleaned => exact absurd (hC hb).2 (by omega)

theorem coreCommit_phase (hs : s.Phase) {n : ℕ} (hmoved : s.moved = n + 1) :
    Phase { s with moved := n, batching := false, wire := s.wire ++ s.batch, batch := [] } := by
  cases hs with
  | off hb hcalls hbatch hVB hVC hdis =>
    refine .off rfl hcalls rfl hVB ?_ hdis
    simpa [hbatch, live, refusedAddrs, inCall] using hVC
  | on hb hmoved' => omega
  | committing hb hmoved' hcleaned hread hsend hcalls hVB hVC hdis =>
    refine .off rfl hcalls rfl hVB ?_ hdis
    simpa [hsend, live, refusedAddrs, inCall] using hVC
  | aborting hb hmoved' => omega

/-- With no batched send to clean up, every entry of `m_vBatching` is live. -/
theorem live_vBatching (ho : s.Owned) (hdirect : ∀ c ∈ s.refused, c.batching = false) :
    s.live s.handler.vBatching = s.handler.vBatching := by
  refine List.filter_eq_self.2 fun p hp ↦ ?_
  rw [decide_eq_true_iff]
  rintro hmem
  obtain ⟨c, hc, haddr⟩ := List.mem_map.1 hmem
  have hqueue := ho.refused_mem c hc
  rw [hdirect c hc] at hqueue
  simp only [CAsyncServiceHandler.queueOf, Bool.false_eq_true, if_false] at hqueue
  have honce := ho.once p.addr
  have hposVB := List.count_pos_iff.2 (List.mem_map_of_mem (f := RRPair.addr) hp)
  have hposVC := List.count_pos_iff.2 (List.mem_map_of_mem (f := RRPair.addr) hqueue)
  rw [haddr] at hposVC
  unfold uses at honce
  omega

theorem cleanBatched_phase (ho : s.Owned) (hs : s.Phase)
    (hC : s.batching = true → s.NoBatchedSend ∧ s.moved = 0) :
    Phase { s with
      handler := s.handler.abortBatching
      discarded := s.discarded ++ s.handler.vBatching
      cleaned := s.cleaned + 1 } := by
  cases hs with
  | off hb hcalls hbatch hVB hVC hdis =>
    refine .off hb hcalls hbatch rfl hVC ?_
    simp [hVB, hdis]
  | on hb hmoved hcleaned hcalls hVC hVB hdis =>
    obtain ⟨hdirect, -⟩ := hC hb
    obtain ⟨hread, hsend⟩ :=
      (Phase.on hb hmoved hcleaned hcalls hVC hVB hdis).idle_of_noBatchedSend hb hdirect
    rw [live_vBatching ho hdirect.refused, inCall, hsend] at hVB
    refine .aborting hb hmoved (Nat.succ_pos _) hread hsend hdirect rfl hVC ?_
    simp [hVB, hdis]
  | committing hb hmoved => exact absurd (hC hb).2 (by omega)
  | aborting hb hmoved hcleaned hread hsend hcalls hVB hVC hdis =>
    refine .aborting hb hmoved (Nat.succ_pos _) hread hsend hcalls rfl hVC ?_
    simp [hVB, hdis]

theorem coreAbort_phase (hs : s.Phase) {n : ℕ} (hcleaned : s.cleaned = n + 1) :
    Phase { s with
      cleaned := n, batching := false, dropped := s.dropped ++ s.batch, batch := [] } := by
  cases hs with
  | off hb hcalls hbatch hVB hVC hdis =>
    refine .off rfl hcalls rfl hVB hVC ?_
    simp [hbatch, hdis]
  | on hb hmoved hcleaned' => omega
  | committing hb hmoved hcleaned' => omega
  | aborting hb hmoved hcleaned' hread hsend hcalls hVB hVC hdis =>
    refine .off rfl hcalls rfl hVB ?_ hdis
    simpa [hsend, live, refusedAddrs, inCall] using hVC

/-! ### The order is kept -/

/-- The invariant of a connection whose batching calls are exclusive. -/
structure Aligned (s : BatchedConnection κ) : Prop where
  owned : s.Owned
  phase : s.Phase

theorem initial_aligned (fresh : ℕ) : (initial fresh : BatchedConnection κ).Aligned where
  owned := by constructor <;> simp [initial, uses, refusedAddrs]
  phase := .off rfl (by simp [NoBatchedSend, initial]) rfl rfl rfl rfl

/-- **The step lemma.** -/
theorem step_aligned (a : BatchAction κ) (hs : s.Aligned) (hC : s.Exclusive a)
    (hstep : s.step a = some t) : t.Aligned := by
  obtain ⟨ho, hp⟩ := hs
  cases a with
  | enter reqId cb =>
    simp only [step] at hstep
    split at hstep
    · exact Option.some.inj hstep ▸ ⟨ho, hp⟩
    · split at hstep
      · exact Option.some.inj hstep ▸ ⟨enter_owned ho reqId cb _, enter_phase hp reqId cb hC⟩
      · exact absurd hstep (by simp)
  | push i =>
    simp only [step] at hstep
    split at hstep
    · rename_i c hsend hc
      exact Option.some.inj hstep ▸ ⟨push_owned ho hc, push_phase ho hp hc hsend⟩
    · exact absurd hstep (by simp)
  | send sent =>
    simp only [step] at hstep
    split at hstep
    · rename_i c hsend
      split at hstep
      · have hphase := sent_phase hp hsend
        split at hstep
        · rename_i hb
          rw [if_pos hb] at hphase
          exact Option.some.inj hstep ▸ ⟨ho.of_same rfl rfl rfl, hphase⟩
        · rename_i hb
          rw [if_neg hb] at hphase
          exact Option.some.inj hstep ▸ ⟨ho.of_same rfl rfl rfl, hphase⟩
      · exact Option.some.inj hstep ▸
          ⟨refuse_owned ho (hp.inCall_mem hsend), refused_phase ho hp hsend⟩
    · exact absurd hstep (by simp)
  | giveUp i =>
    simp only [step] at hstep
    split at hstep
    · rename_i c hc
      exact Option.some.inj hstep ▸ ⟨giveUp_owned ho hc, giveUp_phase ho hp hc⟩
    · exact absurd hstep (by simp)
  | startBatching =>
    exact Option.some.inj hstep ▸
      ⟨ho.of_same rfl rfl rfl, startBatching_phase hp hC⟩
  | moveBatched =>
    exact Option.some.inj hstep ▸
      ⟨moveBatched_owned ho (hp.refused_direct fun hb ↦ (hC hb).1) _, moveBatched_phase hp hC⟩
  | coreCommit =>
    simp only [step] at hstep
    split at hstep
    · exact absurd hstep (by simp)
    · rename_i n hmoved
      exact Option.some.inj hstep ▸
        ⟨ho.of_same rfl rfl rfl, coreCommit_phase hp hmoved⟩
  | cleanBatched =>
    exact Option.some.inj hstep ▸
      ⟨cleanBatched_owned ho (hp.refused_direct fun hb ↦ (hC hb).1) _ _,
        cleanBatched_phase ho hp hC⟩
  | coreAbort =>
    simp only [step] at hstep
    split at hstep
    · exact absurd hstep (by simp)
    · rename_i n hcleaned
      exact Option.some.inj hstep ▸
        ⟨ho.of_same rfl rfl rfl, coreAbort_phase hp hcleaned⟩

/-- What the invariant says about the queues, the wire and the core's batch. -/
theorem Aligned.orderKept (hs : s.Aligned) : s.OrderKept := by
  obtain ⟨ho, hp⟩ := hs
  have hdisjoint : ∀ p ∈ s.handler.vBatching, p ∉ s.handler.vCallback := by
    intro p hp hp'
    have honce := ho.once p.addr
    have hposVB := List.count_pos_iff.2 (List.mem_map_of_mem (f := RRPair.addr) hp)
    have hposVC := List.count_pos_iff.2 (List.mem_map_of_mem (f := RRPair.addr) hp')
    unfold uses at honce
    omega
  cases hp with
  | off hb hcalls hbatch hVB hVC hdis =>
    refine ⟨hVC ▸ List.prefix_append _ _, fun hsend _ ↦ ?_, hdis ▸ List.prefix_refl _,
      fun _ ↦ hdis, by simp [hVB]⟩
    simpa [inCall, hsend] using hVC
  | on hb hmoved hcleaned hcalls hVC hVB hdis =>
    refine ⟨hVC ▸ List.prefix_refl _, fun _ _ ↦ hVC, hdis ▸ List.prefix_refl _, fun _ ↦ hdis,
      fun p hp hwire ↦ hdisjoint p hp ?_⟩
    rw [← hVC] at hwire
    exact List.mem_of_mem_filter hwire
  | committing hb hmoved hcleaned hread hsend hcalls hVB hVC hdis =>
    exact ⟨hVC ▸ List.prefix_append _ _, fun _ h ↦ absurd h (by omega),
      hdis ▸ List.prefix_refl _, fun _ ↦ hdis, by simp [hVB]⟩
  | aborting hb hmoved hcleaned hread hsend hcalls hVB hVC hdis =>
    exact ⟨hVC ▸ List.prefix_refl _, fun _ _ ↦ hVC, hdis ▸ List.prefix_append _ _,
      fun h ↦ absurd h (by omega), by simp [hVB]⟩

/-- **The callback order is the wire order.** In every run of any number of threads whose batching
calls fall into no window of another call they can hurt, the callbacks moved to `m_vCallback` are
those of the requests on the wire in wire order, an abort discards exactly what the core drops, and
no callback stays in `m_vBatching` once its request is on the wire. -/
theorem order_kept (fresh : ℕ) (as : List (BatchAction κ))
    (hin : Machine.Within step Exclusive (initial fresh) as)
    (hrun : Machine.run step (initial fresh) as = some s) : s.OrderKept :=
  (Machine.invariant_of_within (fun _ a _ hu hC hstep ↦ step_aligned a hu hC hstep) as
    (initial_aligned fresh) hin hrun).orderKept

/-- Two threads whose sends overlap inside one batch, committed when both have returned. -/
theorem order_kept_two_sends :
    OrderKept (⟨⟨[⟨1, 0x2101, some 8, none, none⟩, ⟨0, 0x2100, some 7, none, none⟩], [], [], 2⟩, [],
      none, [], 0, 0, false, [], [⟨1, 0x2101, some 8, none, none⟩, ⟨0, 0x2100, some 7, none, none⟩],
      [], []⟩ : BatchedConnection ℕ) :=
  order_kept 0
    [.startBatching, .enter 0x2100 ⟨some 7, none, none⟩, .enter 0x2101 ⟨some 8, none, none⟩,
      .push 1, .send true, .push 0, .send true, .moveBatched, .coreCommit] (by decide) (by rfl)

/-- **A commit in the window of a send splits the queues.** A send reads batching as on; another
thread commits; the send then queues its callback with the batched ones and its request goes
straight to the wire. -/
theorem order_not_kept :
    ∃ (as : List (BatchAction ℕ)) (s : BatchedConnection ℕ),
      Machine.run step (initial 0) as = some s ∧ ¬ s.OrderKept := by
  refine ⟨[.startBatching, .enter 0x2100 ⟨some 7, none, none⟩, .moveBatched, .coreCommit, .push 0,
    .send true], ⟨⟨[], [⟨0, 0x2100, some 7, none, none⟩], [], 1⟩, [], none, [], 0, 0, false, [],
    [⟨0, 0x2100, some 7, none, none⟩], [], []⟩, by rfl, fun h ↦ ?_⟩
  exact h.batched ⟨0, 0x2100, some 7, none, none⟩ (by decide) (by decide)

end BatchedConnection

end SocketPro.Client
