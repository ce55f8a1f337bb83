import SocketPro.Queue.AsyncQueue

/-!
# Messages go to the queue of their key

In a transaction, `Enqueue` and `EnqueueBatch` do not look at the key of the request: the message
goes to the queue of the transaction.

**When messages are routed by their key.** `stored_by_key`: in every run in which a request to
enqueue that meets an open transaction names the key of that transaction, every core queue holds
only messages that were sent under its key, and the map leads from a key to an object of that key.
Nothing is assumed of the other requests, nor of other peers.

Every component of the state has its part of the invariant (`Routed`) by itself, so each request
keeps it because the changes it is made of do.
-/

namespace SocketPro.Queue

/-- All messages were sent under the key. -/
def SentTo (k : Key) (es : List Entry) : Prop := ∀ e ∈ es, e.key = k

theorem SentTo.append {k : Key} {es es' : List Entry} (h : SentTo k es) (h' : SentTo k es') :
    SentTo k (es ++ es') := fun e he ↦ (List.mem_append.1 he).elim (h e) (h' e)

theorem SentTo.take {k : Key} {es : List Entry} (h : SentTo k es) (n : ℕ) :
    SentTo k (es.take n) := fun e he ↦ h e (List.mem_of_mem_take he)

theorem sentTo_nil (k : Key) : SentTo k [] := fun _ he ↦ absurd he List.not_mem_nil

/-! ### Core queues -/

/-- What is stored, and what waits in an open job. -/
structure CoreQueue.Holds (c : CoreQueue) (k : Key) : Prop where
  stored : SentTo k c.stored
  job : SentTo k (c.job.getD [])

namespace CoreQueue.Holds

variable {c : CoreQueue} {k : Key}

theorem enqueue {es : List Entry} (h : c.Holds k) (hes : SentTo k es) : (c.enqueue es).Holds k := by
  obtain ⟨stored, job⟩ := c
  cases job with
  | none => exact ⟨h.stored.append hes, sentTo_nil k⟩
  | some pending => exact ⟨h.stored, SentTo.append h.job hes⟩

theorem startJob (h : c.Holds k) : c.startJob.Holds k := ⟨h.stored, h.job⟩

theorem endJob (h : c.Holds k) : c.endJob.Holds k := ⟨h.stored.append h.job, sentTo_nil k⟩

theorem abortJob (h : c.Holds k) : c.abortJob.Holds k := ⟨h.stored, sentTo_nil k⟩

end CoreQueue.Holds

namespace State

variable {ι : Type} {s : State ι}

/-! ### The invariant -/

/-- What the program counter of peer `p` tells of its messages, for objects of keys `key`, of which
the first `fresh` exist. -/
def PcHolds (key : ℕ → Key) (fresh : ℕ) (p : Peer) : Pc → Prop
  | .idle => True
  | .missing k es => SentTo k es ∧ p.m_qTrans = none
  | .enqueuing q es => q < fresh ∧ SentTo (key q) es
  | .job q => q < fresh ∧ ∀ es, p.m_bufferBatch = some es → SentTo (key q) es
  | .batched q _ => q < fresh

/-- The batch buffer goes with a transaction, and its messages to the queue of that. -/
structure PeerHolds (key : ℕ → Key) (fresh : ℕ) (p : Peer) : Prop where
  qTrans : ∀ q, p.m_qTrans = some q → q < fresh
  buffer : ∀ es, p.m_bufferBatch = some es → ∃ q, p.m_qTrans = some q ∧ SentTo (key q) es
  pc : PcHolds key fresh p p.pc

/-- The key of an object. -/
def keyOf (s : State ι) (q : ℕ) : Key := (s.heap q).key

/-- Every message is on the way to the queue of its key, or there. -/
structure Routed (s : State ι) : Prop where
  peers : ∀ i, PeerHolds s.keyOf s.fresh (s.peers i)
  map : ∀ k q, s.m_mapKeyQueue k = some q → q < s.fresh ∧ s.keyOf q = k
  core : ∀ k, (s.core k).Holds k

/-- The condition on a step: in a transaction, messages are sent under the key of that. -/
def KeyOfTrans [DecidableEq ι] (s : State ι) : Act ι → Prop
  | .enqueue i key _ => ∀ q ∈ (s.peers i).m_qTrans, (s.heap q).key = pretreat key
  | _ => True

instance [DecidableEq ι] (s : State ι) (a : Act ι) : Decidable (s.KeyOfTrans a) := by
  cases a <;> unfold KeyOfTrans <;> infer_instance

/-- Objects are made, and never change their key. -/
theorem PeerHolds.mono {key key' : ℕ → Key} {fresh fresh' : ℕ} {p : Peer}
    (h : PeerHolds key fresh p) (hkey : ∀ q < fresh, key' q = key q) (hle : fresh ≤ fresh') :
    PeerHolds key' fresh' p := by
  refine ⟨fun q hq ↦ Nat.lt_of_lt_of_le (h.qTrans q hq) hle, fun es hes ↦ ?_, ?_⟩
  · obtain ⟨q, hq, hsent⟩ := h.buffer es hes
    exact ⟨q, hq, hkey q (h.qTrans q hq) ▸ hsent⟩
  · have hpc := h.pc
    generalize p.pc = pc at hpc ⊢
    cases pc with
    | idle => exact trivial
    | missing k es => exact hpc
    | enqueuing q es => exact ⟨Nat.lt_of_lt_of_le hpc.1 hle, hkey q hpc.1 ▸ hpc.2⟩
    | job q => exact ⟨Nat.lt_of_lt_of_le hpc.1 hle, fun es hes ↦ hkey q hpc.1 ▸ hpc.2 es hes⟩
    | batched q ok => exact Nat.lt_of_lt_of_le hpc hle

section Peers

variable {key : ℕ → Key} {fresh : ℕ} {p : Peer}

/-- The fields that no message depends on. -/
theorem PeerHolds.congr {p' : Peer} (h : PeerHolds key fresh p) (hq : p'.m_qTrans = p.m_qTrans)
    (hb : p'.m_bufferBatch = p.m_bufferBatch) (hpc : p'.pc = p.pc) : PeerHolds key fresh p' := by
  obtain ⟨count, buffer, q, pc, reply, trans⟩ := p
  obtain ⟨count', buffer', q', pc', reply', trans'⟩ := p'
  obtain rfl : q' = q := hq
  obtain rfl : buffer' = buffer := hb
  obtain rfl : pc' = pc := hpc
  refine ⟨h.qTrans, h.buffer, ?_⟩
  have hpc := h.pc
  cases pc' <;> exact hpc

theorem PeerHolds.withPc {pc : Pc} (h : PeerHolds key fresh p) (hpc : PcHolds key fresh p pc) :
    PeerHolds key fresh { p with pc := pc } := by
  refine ⟨h.qTrans, h.buffer, ?_⟩
  cases pc <;> exact hpc

/-- A transaction is given up. -/
theorem PeerHolds.unlock (h : PeerHolds key fresh p) : PeerHolds key fresh p.unlock := by
  refine ⟨nofun, nofun, ?_⟩
  show PcHolds key fresh p.unlock p.pc
  have hpc := h.pc
  generalize p.pc = pc at hpc ⊢
  cases pc with
  | missing k es => exact ⟨hpc.1, rfl⟩
  | job q => exact ⟨hpc.1, fun _ hes ↦ nomatch hes⟩
  | _ => exact hpc

end Peers

/-! ### The changes a request is made of -/

section Changes

variable [DecidableEq ι] {i : ι}

theorem Routed.setPeer {p : Peer} (h : s.Routed) (hp : PeerHolds s.keyOf s.fresh p) :
    (s.setPeer i p).Routed := by
  refine ⟨fun j ↦ ?_, h.map, h.core⟩
  show PeerHolds s.keyOf s.fresh (Function.update s.peers i p j)
  by_cases hj : j = i
  · subst hj
    rwa [Function.update_self]
  · rw [Function.update_of_ne hj]
    exact h.peers j

omit [DecidableEq ι] in
theorem Routed.setCore {k : Key} {c : CoreQueue} (h : s.Routed) (hc : c.Holds k) :
    (s.setCore k c).Routed := by
  refine ⟨h.peers, h.map, fun k' ↦ ?_⟩
  show (Function.update s.core k c k').Holds k'
  by_cases hk : k' = k
  · subst hk
    rwa [Function.update_self]
  · rw [Function.update_of_ne hk]
    exact h.core k'

omit [DecidableEq ι] in
theorem Routed.setLock {q : ℕ} {owner : Option ι} (h : s.Routed) : (s.setLock q owner).Routed := by
  have hkey : (s.setLock q owner).keyOf = s.keyOf := by
    funext q'
    show (Function.update s.heap q _ q').key = _
    by_cases hq : q' = q
    · subst hq
      rw [Function.update_self]
      rfl
    · rw [Function.update_of_ne hq]
      rfl
  exact ⟨fun i ↦ hkey ▸ h.peers i, fun k q' hq' ↦ hkey ▸ h.map k q' hq', h.core⟩

omit [DecidableEq ι] in
theorem keyOf_register {key : Key} : (s.register key).keyOf s.fresh = key := by
  simp [State.register, keyOf]

omit [DecidableEq ι] in
theorem Routed.register {key : Key} (h : s.Routed) : (s.register key).Routed := by
  have hkey : ∀ q < s.fresh, (s.register key).keyOf q = s.keyOf q := fun q hq ↦ by
    simp [State.register, keyOf, Nat.ne_of_lt hq]
  refine ⟨fun i ↦ (h.peers i).mono hkey (Nat.le_succ _), fun k q hkq ↦ ?_, h.core⟩
  by_cases hk : k = key
  · subst hk
    obtain rfl : s.fresh = q := by simpa [State.register] using hkq
    exact ⟨Nat.lt_succ_self _, keyOf_register⟩
  · obtain ⟨hlt, hold⟩ := h.map k q (by simpa [State.register, hk] using hkq)
    exact ⟨Nat.lt_succ_of_lt hlt, (hkey q hlt).trans hold⟩

theorem Routed.recordEnd {e : Ending} (h : s.Routed) : (s.recordEnd i e).Routed := by
  unfold State.recordEnd
  split
  · have hset : (s.setPeer i { s.peers i with trans := none }).Routed :=
      h.setPeer ((h.peers i).congr rfl rfl rfl)
    exact ⟨hset.peers, hset.map, hset.core⟩
  · exact h

omit [DecidableEq ι] in
theorem Routed.recordSent {es : List Entry} (h : s.Routed) : (s.recordSent i es).Routed := by
  unfold State.recordSent
  split
  · exact ⟨h.peers, h.map, h.core⟩
  · exact h

theorem Routed.answer {r : Reply} (h : s.Routed) : (s.answer i r).Routed :=
  h.setPeer ⟨(h.peers i).qTrans, (h.peers i).buffer, trivial⟩

theorem Routed.endBatch {c : ErrCode} (h : s.Routed) : (s.endBatch i c).Routed := by
  refine h.recordEnd.setPeer ?_
  exact ⟨nofun, nofun, trivial⟩

end Changes

/-! ### One step -/

section Requests

variable [DecidableEq ι] {i : ι}

theorem Routed.beginTrans {key : Key} {q : ℕ} (h : s.Routed) (hpc : (s.peers i).pc = .idle)
    (hq : q < s.fresh) : (s.beginTrans i key q).Routed := by
  have hset : (s.setPeer i ⟨0, some [], some q, (s.peers i).pc, .errCode .QUEUE_OK,
      some s.nextTx⟩).Routed := by
    refine h.setPeer ⟨fun q' hq' ↦ Option.some.inj hq' ▸ hq, fun es hes ↦ ⟨q, rfl, ?_⟩, ?_⟩
    · exact Option.some.inj hes ▸ sentTo_nil _
    · rw [hpc]
      exact trivial
  exact ⟨hset.peers, hset.map, hset.core⟩

theorem Routed.startTrans {key : Key} {started : Bool} (h : s.Routed)
    (hpc : (s.peers i).pc = .idle) : (s.startTrans i key started).Routed := by
  unfold State.startTrans
  split
  · exact h.answer
  · split
    · next q hq => exact h.beginTrans hpc (h.map _ q hq).1
    · cases started with
      | false => exact h.answer
      | true => exact Routed.beginTrans h.register hpc (Nat.lt_succ_self _)

/-- Messages sent under the key of the object they are given to: that of the transaction, if the
peer has one. -/
theorem Routed.enqueueAt {q : ℕ} {es : List Entry} (h : s.Routed) (hq : q < s.fresh)
    (hes : SentTo (s.keyOf q) es) (htrans : ∀ q', (s.peers i).m_qTrans = some q' → q' = q) :
    (s.enqueueAt i q es).Routed := by
  unfold State.enqueueAt
  split
  · next buffer hb =>
    obtain ⟨q', hq', hbuffer⟩ := (h.peers i).buffer buffer hb
    obtain rfl := htrans q' hq'
    refine h.setPeer ⟨(h.peers i).qTrans, fun es' hes' ↦ ⟨q', hq', ?_⟩, trivial⟩
    exact Option.some.inj hes' ▸ hbuffer.append hes
  · exact h.setPeer ((h.peers i).withPc ⟨hq, hes⟩)

theorem Routed.enqueue {key : Key} {msgs : List Msg} (h : s.Routed)
    (hc : s.KeyOfTrans (.enqueue i key msgs)) : (s.enqueue i key msgs).Routed := by
  unfold State.enqueue
  dsimp only
  generalize hes : msgs.map (fun m ↦ (⟨m, pretreat key, (s.peers i).trans⟩ : Entry)) = es
  have hsent : SentTo (pretreat key) es := by
    subst hes
    simp [SentTo]
  have hrec : (s.recordSent i es).Routed := h.recordSent
  have hsame : (s.recordSent i es).peers = s.peers ∧ (s.recordSent i es).heap = s.heap := by
    unfold State.recordSent
    split <;> exact ⟨rfl, rfl⟩
  split
  · next q hq =>
    have hkey : (s.recordSent i es).keyOf q = pretreat key := by
      rw [keyOf, hsame.2]
      exact hc q (hsame.1 ▸ hq)
    refine hrec.enqueueAt ((hrec.peers i).qTrans q hq) (hkey ▸ hsent) fun q' hq' ↦ ?_
    exact Option.some.inj (hq'.symm.trans hq)
  · next hnone =>
    split
    · next q hq =>
      obtain ⟨hlt, hkey⟩ := hrec.map _ q hq
      refine hrec.enqueueAt hlt (hkey ▸ hsent) fun q' hq' ↦ ?_
      rw [hnone] at hq'
      cases hq'
    · exact hrec.setPeer ((hrec.peers i).withPc ⟨hsent, hnone⟩)

/-- A new object for a key that `Find` has not found. -/
theorem Routed.create {key : Key} {es : List Entry} (h : s.Routed)
    (hpc : (s.peers i).pc = .missing key es) :
    ((s.register key).enqueueAt i s.fresh es).Routed := by
  have hes := (h.peers i).pc
  rw [hpc] at hes
  refine h.register.enqueueAt (Nat.lt_succ_self _) (keyOf_register.symm ▸ hes.1) fun q' hq' ↦ ?_
  exact nomatch hes.2.symm.trans hq'

theorem Routed.store {q : ℕ} {es : List Entry} {r : Reply} (h : s.Routed)
    (hpc : (s.peers i).pc = .enqueuing q es) :
    ((s.setCore (s.heap q).key ((s.core (s.heap q).key).enqueue es)).answer i r).Routed := by
  have hes := (h.peers i).pc
  rw [hpc] at hes
  exact (h.setCore ((h.core _).enqueue hes.2)).answer

/-- A single message goes to the queue of the transaction at once. -/
theorem Routed.commitOne {q : ℕ} {buffer : List Entry} (h : s.Routed)
    (hb : (s.peers i).m_bufferBatch = some buffer) (hq : (s.peers i).m_qTrans = some q) :
    ((s.setCore (s.heap q).key ((s.core (s.heap q).key).enqueue (buffer.take 1))).endBatch i
      .QUEUE_OK).Routed := by
  obtain ⟨q', hq', hbuffer⟩ := (h.peers i).buffer buffer hb
  obtain rfl : q = q' := Option.some.inj (hq.symm.trans hq')
  have hbatch : SentTo (s.heap q).key buffer := hbuffer
  exact (h.setCore ((h.core _).enqueue (hbatch.take 1))).endBatch

theorem Routed.startJob {q : ℕ} (h : s.Routed) (hq : (s.peers i).m_qTrans = some q) :
    (((s.setLock q (some i)).setCore (s.heap q).key (s.core (s.heap q).key).startJob).setPeer i
      { s.peers i with pc := .job q }).Routed := by
  have hlock : (s.setLock q (some i)).Routed := h.setLock
  have hjob := hlock.setCore (h.core (s.heap q).key).startJob
  refine hjob.setPeer ((hjob.peers i).withPc ⟨(hjob.peers i).qTrans q hq, fun es hes ↦ ?_⟩)
  obtain ⟨q', hq', hsent⟩ := (hjob.peers i).buffer es hes
  obtain rfl : q = q' := Option.some.inj (hq.symm.trans hq')
  exact hsent

theorem Routed.batchEnqueue {q n : ℕ} {ok : Bool} (h : s.Routed)
    (hpc : (s.peers i).pc = .job q) : (s.batchEnqueue i q ok n).Routed := by
  have hjob := (h.peers i).pc
  rw [hpc] at hjob
  obtain ⟨hlt, hbuffer⟩ := hjob
  have hbatch : SentTo (s.heap q).key ((s.peers i).m_bufferBatch.getD []) := by
    cases hb : (s.peers i).m_bufferBatch with
    | none => exact sentTo_nil _
    | some es => exact hbuffer es hb
  have hes : SentTo (s.heap q).key (bif ok then (s.peers i).m_bufferBatch.getD []
      else ((s.peers i).m_bufferBatch.getD []).take n) := by
    cases ok with
    | false => exact hbatch.take n
    | true => exact hbatch
  have hcore := h.setCore ((h.core _).enqueue hes)
  exact hcore.setPeer ((hcore.peers i).withPc hlt)

theorem Routed.endJob {q : ℕ} {batched ended : Bool} (h : s.Routed) :
    (s.endJob i q batched ended).Routed := by
  have hlock : (s.setLock q none).Routed := h.setLock
  have habort := hlock.setCore (h.core (s.heap q).key).abortJob
  cases batched with
  | false => exact habort.endBatch
  | true =>
    cases ended with
    | false => exact habort.endBatch
    | true => exact (hlock.setCore (h.core (s.heap q).key).endJob).endBatch

omit [DecidableEq ι] in
theorem Routed.shrink {clients : List ι} {map : Key → Option ℕ} (h : s.Routed)
    (hmap : ∀ k q, map k = some q → s.m_mapKeyQueue k = some q) :
    { s with clients := clients, m_mapKeyQueue := map }.Routed :=
  ⟨h.peers, fun k q hq ↦ h.map k q (hmap k q hq), h.core⟩

theorem Routed.close {key : Key} {closed : ErrCode} (h : s.Routed) :
    (s.close i key closed).Routed := by
  have hset : (s.setPeer i (s.peers i).unlock).Routed := h.setPeer (h.peers i).unlock
  unfold State.close
  dsimp only
  split
  · exact hset.answer
  · next q _ =>
    cases (s.setPeer i (s.peers i).unlock).unshared q with
    | false => exact hset.answer
    | true =>
      rw [cond_true]
      split
      · refine Routed.answer (Routed.setCore (hset.shrink fun k q' hq' ↦ ?_) (h.core _).abortJob)
        by_cases hk : k = pretreat key
        · simp [hk] at hq'
        · rwa [Function.update_of_ne hk] at hq'
      · exact hset.answer

theorem Routed.onCancel (h : s.Routed) : (s.onCancel i).Routed :=
  h.recordEnd.setPeer (h.recordEnd.peers i).unlock

theorem Routed.onReleaseSource (h : s.Routed) : (s.onReleaseSource i).Routed := by
  refine Routed.shrink (h.onCancel (i := i)) fun k q hq ↦ ?_
  split at hq
  · cases hq
  · exact hq

theorem Routed.onSwitchFrom (h : s.Routed) : (s.onSwitchFrom i).Routed := by
  have hset : (s.setPeer i ⟨0, none, none, .idle, .none, none⟩).Routed :=
    h.setPeer ⟨nofun, nofun, trivial⟩
  exact hset.shrink fun _ _ hq ↦ hq

/-- **One step.** -/
theorem Routed.step {s' : State ι} {a : Act ι} (h : s.Routed) (hc : s.KeyOfTrans a)
    (hstep : s.step a = some s') : s'.Routed := by
  cases steps_of_step hstep with
  | switchFrom => exact h.onSwitchFrom
  | startTrans hpc => exact h.startTrans hpc
  | enqueue => exact h.enqueue hc
  | create hpc => exact h.create hpc
  | store hpc => exact h.store hpc
  | noIndex => exact h.answer
  | noTrans => exact h.recordEnd.answer
  | rollback => exact h.recordEnd.setPeer ((h.recordEnd.peers _).unlock.congr rfl rfl rfl)
  | commitNone => exact h.endBatch
  | commitFail => exact h.endBatch
  | commitOne hb hq => exact h.commitOne hb hq
  | startJob _ hq => exact h.startJob hq
  | batchEnqueue hpc => exact h.batchEnqueue hpc
  | endJob => exact h.endJob
  | close => exact h.close
  | cancel => exact h.onCancel
  | releaseSource => exact h.onReleaseSource

end Requests

/-! ### Runs -/

theorem routed_initial [Inhabited ι] (stored : Key → List Msg) :
    (initial stored : State ι).Routed where
  peers i := ⟨nofun, nofun, trivial⟩
  map k q hq := nomatch hq
  core k := by
    refine ⟨fun e he ↦ ?_, sentTo_nil k⟩
    obtain ⟨m, -, rfl⟩ := List.mem_map.1 he
    rfl

/-- **Messages go to the queue of their key**, in every run in which those of a transaction are
sent under its key. -/
theorem stored_by_key [DecidableEq ι] [Inhabited ι] (stored : Key → List Msg) (as : List (Act ι))
    (hin : Machine.Within step KeyOfTrans (initial stored) as)
    (hrun : Machine.run step (initial stored) as = some s) :
    (∀ k q, s.m_mapKeyQueue k = some q → (s.heap q).key = k) ∧
      ∀ k, ∀ e ∈ (s.core k).stored, e.key = k := by
  have h : s.Routed := Machine.invariant_of_within (fun _ _ _ h hc hstep ↦ Routed.step h hc hstep)
    as (routed_initial stored) hin hrun
  exact ⟨fun k q hq ↦ (h.map k q hq).2, fun k ↦ (h.core k).stored⟩

/-- A transaction on `a` with a message for `a`, and a message for `b` after it. -/
def sendBoth : List (Act Unit) :=
  [.switchFrom (), .startTrans () ['a'] true, .enqueue () ['a', '/'] [⟨1, []⟩],
    .endTrans () false true, .enqueue () ['b'] [⟨2, []⟩], .create () true, .store () (some 1)]

theorem sendBoth_enabled : (Machine.run step (initial fun _ ↦ []) sendBoth).isSome := by decide

theorem stored_by_key_sendBoth :
    let s := (Machine.run step (initial fun _ ↦ []) sendBoth).get sendBoth_enabled
    (∀ k q, s.m_mapKeyQueue k = some q → (s.heap q).key = k) ∧
      ∀ k, ∀ e ∈ (s.core k).stored, e.key = k :=
  stored_by_key (fun _ ↦ []) sendBoth (by decide) (Option.some_get sendBoth_enabled).symm

/-- The same with the message for `b` in the transaction. It is acknowledged as the first one of
the batch. -/
def sendInTrans : List (Act Unit) :=
  [.switchFrom (), .startTrans () ['a'] true, .enqueue () ['b'] [⟨1, []⟩], .endTrans () false true]

theorem sendInTrans_enabled : (Machine.run step (initial fun _ ↦ []) sendInTrans).isSome := by
  decide

/-- It is stored under `a`. -/
theorem not_stored_by_key : ¬ ∀ (as : List (Act Unit)) (s : State Unit),
    Machine.run step (initial fun _ ↦ []) as = some s →
      ∀ k, ∀ e ∈ (s.core k).stored, e.key = k := by
  intro h
  have hkey := h sendInTrans _ (Option.some_get sendInTrans_enabled).symm ['a']
    ⟨⟨1, []⟩, ['b'], some 0⟩ (by decide)
  exact absurd hkey (by decide)

end State

end SocketPro.Queue
