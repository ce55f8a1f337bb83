import SocketPro.Queue.AsyncQueue

/-!
# Transactions are all or nothing

`Atomic s t` says what the messages sent in transaction `t` have become: once its `EndTrans` has
returned `QUEUE_OK` they are in the queue of its key, all of them, once, next to each other and in
the order in which they were sent; in every other case none of them is in any queue.

**When it holds.** `transactions_atomic`: in every run, of any peers, in which

* no peer with an open transaction calls `Close`, which gives the transaction up whatever key is
  closed, so that what follows is stored directly;
* a commit makes its first core call on a queue with no open job, which the lock of a `CMyQueue`
  object guarantees for commits of several messages but not for those of a single one, where no
  lock is taken;
* no `Close` stops a core queue with an open job.

Batches are taken to be well formed (their count is the number of their messages) and, as the client
documents, below four gigabytes, so that `m_count` does not wrap.

The invariant (`Inv`) ties the three fields of every peer to the record of its client's transaction,
and an open job to the one peer whose commit has opened it.
-/

namespace SocketPro.Queue

/-! ### Marks of messages -/

/-- Messages sent outside of transactions. -/
def Untagged (es : List Entry) : Prop := ∀ e ∈ es, e.tx = none

/-- No message of transaction `t`. -/
def Absent (t : ℕ) (es : List Entry) : Prop := ∀ e ∈ es, e.tx ≠ some t

/-- The messages `es` of transaction `t` in one piece, and no other of its messages. -/
def Appears (t : ℕ) (es l : List Entry) : Prop :=
  ∃ a b, l = a ++ es ++ b ∧ Absent t a ∧ Absent t b

theorem Untagged.absent {es : List Entry} (h : Untagged es) (t : ℕ) : Absent t es := by
  intro e he htag
  rw [h e he] at htag
  cases htag

theorem Untagged.append {es es' : List Entry} (h : Untagged es) (h' : Untagged es') :
    Untagged (es ++ es') := fun e he ↦ (List.mem_append.1 he).elim (h e) (h' e)

theorem Absent.append {t : ℕ} {es es' : List Entry} (h : Absent t es) (h' : Absent t es') :
    Absent t (es ++ es') := fun e he ↦ (List.mem_append.1 he).elim (h e) (h' e)

theorem untagged_nil : Untagged [] := fun _ he ↦ absurd he List.not_mem_nil

theorem absent_nil (t : ℕ) : Absent t [] := fun _ he ↦ absurd he List.not_mem_nil

/-- Messages of one transaction are not messages of another one. -/
theorem absent_of_tagged {t u : ℕ} {es : List Entry} (h : ∀ e ∈ es, e.tx = some u) (hne : t ≠ u) :
    Absent t es := by
  intro e he htag
  rw [h e he] at htag
  exact hne (Option.some.inj htag).symm

theorem Appears.append {t : ℕ} {es l m : List Entry} (h : Appears t es l) (hm : Absent t m) :
    Appears t es (l ++ m) := by
  obtain ⟨a, b, rfl, ha, hb⟩ := h
  exact ⟨a, b ++ m, List.append_assoc _ _ _, ha, hb.append hm⟩

theorem Absent.appears_append {t : ℕ} {es l a b : List Entry} (h : Absent t l) (ha : Absent t a)
    (hb : Absent t b) : Appears t es (l ++ (a ++ es ++ b)) :=
  ⟨l ++ a, b, by simp, h.append ha, hb⟩

/-- Whose action it is. -/
def Act.peer {ι : Type} : Act ι → ι
  | .switchFrom i => i
  | .startTrans i _ _ => i
  | .enqueue i _ _ => i
  | .create i _ => i
  | .store i _ => i
  | .endTrans i _ _ => i
  | .batchEnqueue i _ _ => i
  | .endJob i _ => i
  | .close i _ _ => i
  | .cancel i => i
  | .releaseSource i => i

/-- The object whose job the request of the peer has opened. -/
def Pc.inJob : Pc → Option ℕ
  | .job q => some q
  | .batched q _ => some q
  | _ => none

namespace State

variable {ι : Type}

/-! ### The property -/

/-- What has become of the messages of transaction `t`. -/
def Atomic (s : State ι) (t : ℕ) : Prop :=
  if (s.txs t).ending = .committed then
    Appears t (s.txs t).sent (s.core (s.txs t).key).stored ∧
      ∀ k ≠ (s.txs t).key, Absent t (s.core k).stored
  else ∀ k, Absent t (s.core k).stored

/-! ### The invariant -/

/-- The fields of a peer whose client is in transaction `t`, and the object it works on. -/
structure InTrans (s : State ι) (i : ι) (t q : ℕ) : Prop where
  qTrans : (s.peers i).m_qTrans = some q
  buffer : (s.peers i).m_bufferBatch = some (s.txs t).sent
  count : (s.peers i).m_count = (s.txs t).sent.length
  lt : t < s.nextTx
  peer : (s.txs t).peer = i
  running : (s.txs t).ending = .running
  key : (s.heap q).key = (s.txs t).key
  fresh : q < s.fresh

/-- What the program counter of a peer outside of a transaction says. -/
def FreePc (s : State ι) : Pc → Prop
  | .idle => True
  | .missing _ es => Untagged es
  | .enqueuing q es => Untagged es ∧ q < s.fresh
  | .job _ => False
  | .batched _ _ => False

/-- What it says in a transaction: in a commit, the job of the queue is open, and holds the batch
once `BatchEnqueue` has succeeded. -/
def TransPc (s : State ι) (t q : ℕ) : Pc → Prop
  | .idle => True
  | .job q' => q' = q ∧ ∃ pending, (s.core (s.txs t).key).job = some pending ∧ Untagged pending
  | .batched q' ok => q' = q ∧ ∃ pending, (s.core (s.txs t).key).job = some pending ∧
      (ok = true → ∃ a b, pending = a ++ (s.txs t).sent ++ b ∧ Untagged a ∧ Untagged b)
  | _ => False

/-- The fields of a peer agree with the record of its client. -/
def PeerOk (s : State ι) (i : ι) : Prop :=
  match (s.peers i).trans with
  | none => (s.peers i).m_qTrans = none ∧ (s.peers i).m_bufferBatch = none ∧
      s.FreePc (s.peers i).pc
  | some t => ∃ q, s.InTrans i t q ∧ s.TransPc t q (s.peers i).pc

/-- The peer has opened the job on the queue of the key. -/
def InJob (s : State ι) (i : ι) (k : Key) : Prop :=
  ∃ q, (s.peers i).pc.inJob = some q ∧ (s.heap q).key = k

/-- What is known of the messages in the queues. -/
def Settled (s : State ι) : Prop :=
  (∀ t < s.nextTx, s.Atomic t) ∧ ∀ k, ∀ e ∈ (s.core k).stored, ∀ t, e.tx = some t → t < s.nextTx

/-- What holds in every state of an undisturbed run. -/
structure Inv (s : State ι) : Prop where
  peers : ∀ i, s.PeerOk i
  alone : ∀ i j k, s.InJob i k → s.InJob j k → i = j
  settled : s.Settled
  tagged : ∀ t, ∀ e ∈ (s.txs t).sent, e.tx = some t
  map : ∀ k q, s.m_mapKeyQueue k = some q → q < s.fresh ∧ (s.heap q).key = k

/-- What a step of peer `i` leaves to the others. -/
structure Keeps (s s' : State ι) (i : ι) : Prop where
  peers : ∀ j ≠ i, s'.peers j = s.peers j
  heap : ∀ q < s.fresh, (s'.heap q).key = (s.heap q).key
  fresh : s.fresh ≤ s'.fresh
  nextTx : s.nextTx ≤ s'.nextTx
  txs : ∀ t < s.nextTx, (s.txs t).peer ≠ i → s'.txs t = s.txs t
  jobs : ∀ k, ¬ s.InJob i k → ∀ pending, (s.core k).job = some pending →
    ∃ es, Untagged es ∧ (s'.core k).job = some (pending ++ es)

section Keeps

variable {s s' : State ι} {i j : ι}

/-! ### Peers inside and outside of transactions -/

theorem PeerOk.of_free (htrans : (s.peers i).trans = none) (hq : (s.peers i).m_qTrans = none)
    (hb : (s.peers i).m_bufferBatch = none) (hpc : s.FreePc (s.peers i).pc) : s.PeerOk i := by
  unfold PeerOk
  rw [htrans]
  exact ⟨hq, hb, hpc⟩

theorem PeerOk.of_trans {t q : ℕ} (htrans : (s.peers i).trans = some t) (hin : s.InTrans i t q)
    (hpc : s.TransPc t q (s.peers i).pc) : s.PeerOk i := by
  unfold PeerOk
  rw [htrans]
  exact ⟨q, hin, hpc⟩

theorem PeerOk.free (h : s.PeerOk i) (htrans : (s.peers i).trans = none) :
    (s.peers i).m_qTrans = none ∧ (s.peers i).m_bufferBatch = none ∧ s.FreePc (s.peers i).pc := by
  unfold PeerOk at h
  rwa [htrans] at h

theorem PeerOk.inTrans {t : ℕ} (h : s.PeerOk i) (htrans : (s.peers i).trans = some t) :
    ∃ q, s.InTrans i t q ∧ s.TransPc t q (s.peers i).pc := by
  unfold PeerOk at h
  rwa [htrans] at h

/-- The transaction a peer has open is the one its fields tell of. -/
theorem PeerOk.trans_of_qTrans {q : ℕ} (h : s.PeerOk i) (hq : (s.peers i).m_qTrans = some q) :
    ∃ t, (s.peers i).trans = some t ∧ s.InTrans i t q := by
  cases ht : (s.peers i).trans with
  | none =>
    have hnone := (h.free ht).1
    rw [hq] at hnone
    cases hnone
  | some t =>
    obtain ⟨q', hin, -⟩ := h.inTrans ht
    have hqq : q' = q := Option.some.inj (hin.qTrans.symm.trans hq)
    exact ⟨t, rfl, hqq ▸ hin⟩

theorem not_inJob_of_pc {k : Key} (hpc : (s.peers i).pc.inJob = none) : ¬ s.InJob i k := by
  rintro ⟨q, hq, -⟩
  rw [hpc] at hq
  cases hq

/-- In a job phase, a peer is in a transaction and works on its object. -/
theorem PeerOk.trans_of_inJob {q : ℕ} (h : s.PeerOk i) (hpc : (s.peers i).pc.inJob = some q) :
    ∃ t, (s.peers i).trans = some t ∧ s.InTrans i t q ∧ s.TransPc t q (s.peers i).pc := by
  cases ht : (s.peers i).trans with
  | none =>
    obtain ⟨-, -, h⟩ := h.free ht
    generalize (s.peers i).pc = pc at h hpc
    cases pc with
    | job q' => exact h.elim
    | batched q' ok => exact h.elim
    | _ => cases hpc
  | some t =>
    obtain ⟨q', hin, h⟩ := h.inTrans ht
    have hq : q' = q := by
      generalize (s.peers i).pc = pc at h hpc
      cases pc with
      | job q'' => exact h.1.symm.trans (Option.some.inj hpc)
      | batched q'' ok => exact h.1.symm.trans (Option.some.inj hpc)
      | _ => cases hpc
    exact ⟨t, rfl, hq ▸ hin, hq ▸ h⟩

/-- The job a peer has opened is open. -/
theorem PeerOk.job_open {k : Key} (h : s.PeerOk i) (hjob : s.InJob i k) :
    ∃ pending, (s.core k).job = some pending := by
  obtain ⟨q, hpc, rfl⟩ := hjob
  obtain ⟨t, -, hin, h⟩ := h.trans_of_inJob hpc
  rw [hin.key]
  generalize (s.peers i).pc = pc at h hpc
  cases pc with
  | job q' =>
    obtain ⟨-, pending, hjob, -⟩ := h
    exact ⟨pending, hjob⟩
  | batched q' ok =>
    obtain ⟨-, pending, hjob, -⟩ := h
    exact ⟨pending, hjob⟩
  | _ => cases hpc

/-- The transaction of another peer goes on as before. -/
theorem InTrans.keeps {t q : ℕ} (h : s.InTrans j t q) (hk : s.Keeps s' i) (hne : j ≠ i) :
    s'.InTrans j t q := by
  have hp := hk.peers j hne
  have htx : s'.txs t = s.txs t := hk.txs t h.lt (h.peer.symm ▸ hne)
  exact
    { qTrans := hp ▸ h.qTrans
      buffer := by rw [hp, htx, h.buffer]
      count := by rw [hp, htx, h.count]
      lt := Nat.lt_of_lt_of_le h.lt hk.nextTx
      peer := htx ▸ h.peer
      running := htx ▸ h.running
      key := by rw [hk.heap q h.fresh, htx, h.key]
      fresh := Nat.lt_of_lt_of_le h.fresh hk.fresh }

/-- Another peer's job has at most grown by messages sent outside of transactions. -/
theorem TransPc.keeps {t q : ℕ} (h : s.TransPc t q (s.peers j).pc) (hin : s.InTrans j t q)
    (hk : s.Keeps s' i) (hne : j ≠ i) (halone : ∀ k, s.InJob j k → ¬ s.InJob i k) :
    s'.TransPc t q (s.peers j).pc := by
  have htx : s'.txs t = s.txs t := hk.txs t hin.lt (hin.peer.symm ▸ hne)
  cases hpc : (s.peers j).pc with
  | idle => exact trivial
  | missing k es =>
    rw [hpc] at h
    exact h
  | enqueuing q' es =>
    rw [hpc] at h
    exact h
  | job q' =>
    rw [hpc] at h
    obtain ⟨rfl, pending, hjob, hpend⟩ := h
    have hnot := halone _ ⟨q', by rw [hpc]; rfl, hin.key⟩
    obtain ⟨es, hes, hjob'⟩ := hk.jobs _ hnot pending hjob
    exact ⟨rfl, pending ++ es, by rw [htx, hjob'], hpend.append hes⟩
  | batched q' ok =>
    rw [hpc] at h
    obtain ⟨rfl, pending, hjob, hpend⟩ := h
    have hnot := halone _ ⟨q', by rw [hpc]; rfl, hin.key⟩
    obtain ⟨es, hes, hjob'⟩ := hk.jobs _ hnot pending hjob
    refine ⟨rfl, pending ++ es, by rw [htx, hjob'], fun hok ↦ ?_⟩
    obtain ⟨a, b, rfl, ha, hb⟩ := hpend hok
    exact ⟨a, b ++ es, by rw [htx, List.append_assoc], ha, hb.append hes⟩

theorem PeerOk.keeps (h : s.PeerOk j) (hk : s.Keeps s' i) (hne : j ≠ i)
    (halone : ∀ k, s.InJob j k → ¬ s.InJob i k) : s'.PeerOk j := by
  have hp := hk.peers j hne
  unfold PeerOk at h ⊢
  rw [hp]
  cases ht : (s.peers j).trans with
  | none =>
    rw [ht] at h
    obtain ⟨hq, hb, hpc⟩ := h
    refine ⟨hq, hb, ?_⟩
    generalize (s.peers j).pc = pc at hpc
    cases pc with
    | enqueuing q es => exact ⟨hpc.1, Nat.lt_of_lt_of_le hpc.2 hk.fresh⟩
    | _ => exact hpc
  | some t =>
    rw [ht] at h
    obtain ⟨q, hin, hpc⟩ := h
    exact ⟨q, hin.keeps hk hne, hpc.keeps hin hk hne halone⟩

/-- A step of one peer brings no other into a job phase. -/
theorem InJob.of_keeps {k : Key} (hjob : s'.InJob j k) (h : s.PeerOk j) (hk : s.Keeps s' i)
    (hne : j ≠ i) : s.InJob j k := by
  obtain ⟨q, hpc, hkey⟩ := hjob
  rw [hk.peers j hne] at hpc
  obtain ⟨t, -, hin, -⟩ := h.trans_of_inJob hpc
  exact ⟨q, hpc, by rw [← hk.heap q hin.fresh, hkey]⟩

theorem Keeps.refl (s : State ι) (i : ι) : s.Keeps s i where
  peers _ _ := rfl
  heap _ _ := rfl
  fresh := Nat.le_refl _
  nextTx := Nat.le_refl _
  txs _ _ _ := rfl
  jobs _ _ pending hjob := ⟨[], untagged_nil, by rwa [List.append_nil]⟩

/-- The stored messages are as before, or messages sent outside of transactions have been added;
no transaction has been committed. -/
structure Quiet (s s' : State ι) : Prop where
  stored : ∀ k, ∃ es, Untagged es ∧ (s'.core k).stored = (s.core k).stored ++ es
  nextTx : s.nextTx ≤ s'.nextTx
  txs : ∀ t < s'.nextTx, t < s.nextTx ∧ s'.txs t = s.txs t ∨
    (s'.txs t).ending ≠ .committed ∧ (t < s.nextTx → (s.txs t).ending ≠ .committed)

/-- Transaction `t` has been committed, and nothing else has changed. -/
structure Commits (s s' : State ι) (t : ℕ) : Prop where
  running : (s.txs t).ending = .running
  lt : t < s.nextTx
  stored : ∃ a b, Untagged a ∧ Untagged b ∧
    (s'.core (s.txs t).key).stored = (s.core (s.txs t).key).stored ++ (a ++ (s.txs t).sent ++ b)
  others : ∀ k ≠ (s.txs t).key, (s'.core k).stored = (s.core k).stored
  txs : s'.txs = Function.update s.txs t { s.txs t with ending := .committed }
  nextTx : s'.nextTx = s.nextTx

/-- What is not committed is in no queue. -/
theorem Settled.absent (h : s.Settled) {t : ℕ}
    (ht : t < s.nextTx → (s.txs t).ending ≠ .committed) (k : Key) :
    Absent t (s.core k).stored := by
  by_cases hlt : t < s.nextTx
  · have hatomic := h.1 t hlt
    rw [Atomic, if_neg (ht hlt)] at hatomic
    exact hatomic k
  · exact fun e he htag ↦ hlt (h.2 k e he t htag)

theorem Settled.quiet (h : s.Settled) (hq : s.Quiet s') : s'.Settled := by
  refine ⟨fun t ht ↦ ?_, fun k e he t htag ↦ ?_⟩
  · rcases hq.txs t ht with ⟨hlt, htx⟩ | ⟨hnc, hnc'⟩
    · -- A transaction that is as before: its queue has at most grown.
      have hatomic := h.1 t hlt
      unfold Atomic at hatomic ⊢
      rw [htx]
      split_ifs with hcom
      · rw [if_pos hcom] at hatomic
        refine ⟨?_, fun k hk ↦ ?_⟩
        · obtain ⟨es, hes, hstored⟩ := hq.stored (s.txs t).key
          exact hstored ▸ hatomic.1.append (hes.absent t)
        · obtain ⟨es, hes, hstored⟩ := hq.stored k
          exact hstored ▸ (hatomic.2 k hk).append (hes.absent t)
      · rw [if_neg hcom] at hatomic
        intro k
        obtain ⟨es, hes, hstored⟩ := hq.stored k
        exact hstored ▸ (hatomic k).append (hes.absent t)
    · rw [Atomic, if_neg hnc]
      intro k
      obtain ⟨es, hes, hstored⟩ := hq.stored k
      exact hstored ▸ (h.absent hnc' k).append (hes.absent t)
  · obtain ⟨es, hes, hstored⟩ := hq.stored k
    rw [hstored, List.mem_append] at he
    rcases he with he | he
    · exact Nat.lt_of_lt_of_le (h.2 k e he t htag) hq.nextTx
    · exact absurd htag (hes.absent t e he)

theorem Settled.commits {t : ℕ} (h : s.Settled) (htag : ∀ e ∈ (s.txs t).sent, e.tx = some t)
    (hc : s.Commits s' t) : s'.Settled := by
  obtain ⟨a, b, ha, hb, hstored⟩ := hc.stored
  have habs : ∀ k, Absent t (s.core k).stored :=
    h.absent fun _ ↦ by rw [hc.running]; exact Ending.noConfusion
  refine ⟨fun u hu ↦ ?_, fun k e he u hu ↦ ?_⟩
  · rw [hc.nextTx] at hu
    by_cases hut : u = t
    · subst hut
      unfold Atomic
      rw [hc.txs, Function.update_self]
      refine ⟨?_, fun k hk ↦ hc.others k hk ▸ habs k⟩
      exact hstored ▸ (habs _).appears_append (ha.absent u) (hb.absent u)
    · -- The messages of another transaction are not among those that have come in.
      have hnew : Absent u (a ++ (s.txs t).sent ++ b) :=
        ((ha.absent u).append (absent_of_tagged htag hut)).append (hb.absent u)
      have hgrown : ∀ k, ∃ es, Absent u es ∧ (s'.core k).stored = (s.core k).stored ++ es := by
        intro k
        by_cases hk : k = (s.txs t).key
        · exact ⟨_, hnew, hk ▸ hstored⟩
        · exact ⟨[], absent_nil u, by rw [hc.others k hk, List.append_nil]⟩
      have hatomic := h.1 u hu
      unfold Atomic at hatomic ⊢
      rw [hc.txs, Function.update_of_ne hut]
      split_ifs with hcom
      · rw [if_pos hcom] at hatomic
        refine ⟨?_, fun k hk ↦ ?_⟩
        · obtain ⟨es, hes, hgrow⟩ := hgrown (s.txs u).key
          exact hgrow ▸ hatomic.1.append hes
        · obtain ⟨es, hes, hgrow⟩ := hgrown k
          exact hgrow ▸ (hatomic.2 k hk).append hes
      · rw [if_neg hcom] at hatomic
        intro k
        obtain ⟨es, hes, hgrow⟩ := hgrown k
        exact hgrow ▸ (hatomic k).append hes
  · rw [hc.nextTx]
    by_cases hk : k = (s.txs t).key
    · rw [hk, hstored, List.mem_append, List.mem_append, List.mem_append] at he
      rcases he with he | (he | he) | he
      · exact h.2 _ e he u hu
      · exact absurd hu (ha.absent u e he)
      · rw [htag e he] at hu
        exact Option.some.inj hu ▸ hc.lt
      · exact absurd hu (hb.absent u e he)
    · rw [hc.others k hk] at he
      exact h.2 k e he u hu

/-- **The invariant after a step of peer `i`**: what is left to show is about that peer and about
the messages that have been stored. -/
theorem Inv.of_keeps (h : s.Inv) (hk : s.Keeps s' i) (hpeer : s'.PeerOk i)
    (hjob : ∀ k, s'.InJob i k → ∀ j ≠ i, ¬ s.InJob j k) (hset : s'.Settled)
    (htag : ∀ t, ∀ e ∈ (s'.txs t).sent, e.tx = some t)
    (hmap : ∀ k q, s'.m_mapKeyQueue k = some q → q < s'.fresh ∧ (s'.heap q).key = k) : s'.Inv where
  peers j := by
    by_cases hj : j = i
    · exact hj ▸ hpeer
    · exact (h.peers j).keeps hk hj fun k hjk hik ↦ hj (h.alone j i k hjk hik)
  alone j l k hj hl := by
    by_cases hji : j = i
    · subst hji
      by_contra hne
      exact hjob k hj l (Ne.symm hne) (hl.of_keeps (h.peers l) hk (Ne.symm hne))
    · have hj' := hj.of_keeps (h.peers j) hk hji
      by_cases hli : l = i
      · subst hli
        exact absurd hj' (hjob k hl j hji)
      · exact h.alone j l k hj' (hl.of_keeps (h.peers l) hk hli)
  settled := hset
  tagged := htag
  map := hmap

end Keeps

/-! ### Undisturbed steps -/

variable [DecidableEq ι] {s s' : State ι} {i : ι}

/-- No job is open on the core queue of the object. -/
def NoJob (s : State ι) (q : ℕ) : Prop := (s.core (s.heap q).key).job = none

instance (s : State ι) (q : ℕ) : Decidable (s.NoJob q) := inferInstanceAs (Decidable (_ = none))

/-- The condition on a step: `Close` meets no open transaction of its peer and no open job on the
queue it stops, and a commit meets no open job. -/
def Undisturbed (s : State ι) : Act ι → Prop
  | .close i key _ => (s.peers i).m_qTrans = none ∧
      ∀ q ∈ s.m_mapKeyQueue (pretreat key), s.unshared q → s.NoJob q
  | .endTrans i rollback _ => rollback = true ∨ (s.peers i).m_count = 0 ∨
      ∀ q ∈ (s.peers i).m_qTrans, s.NoJob q
  | _ => True

instance (s : State ι) (a : Act ι) : Decidable (s.Undisturbed a) :=
  match a with
  | .close .. => inferInstanceAs (Decidable (_ ∧ ∀ _ ∈ _, _ → State.NoJob s _))
  | .endTrans .. => inferInstanceAs (Decidable (_ ∨ _ ∨ ∀ _ ∈ _, State.NoJob s _))
  | .switchFrom _ | .startTrans .. | .enqueue .. | .create .. | .store .. | .batchEnqueue ..
  | .endJob .. | .cancel _ | .releaseSource _ => .isTrue trivial

/-! ### The parts of a request -/

section Parts

@[simp] theorem setPeer_peers_self (p : Peer) : (s.setPeer i p).peers i = p := by
  simp [State.setPeer]

theorem setPeer_peers_of_ne {j : ι} (p : Peer) (hne : j ≠ i) :
    (s.setPeer i p).peers j = s.peers j := by simp [State.setPeer, hne]

/-- A step that changes one peer only. -/
theorem Inv.setPeer {p : Peer} (h : s.Inv) (hp : (s.setPeer i p).PeerOk i)
    (hpc : p.pc.inJob = none) : (s.setPeer i p).Inv := by
  have hk : s.Keeps (s.setPeer i p) i :=
    { peers := fun j hj ↦ setPeer_peers_of_ne p hj
      heap := fun _ _ ↦ rfl
      fresh := Nat.le_refl _
      nextTx := Nat.le_refl _
      txs := fun _ _ _ ↦ rfl
      jobs := fun k _ pending hjob ↦ ⟨[], untagged_nil, by simpa [State.setPeer]⟩ }
  refine h.of_keeps hk hp (fun k hjob ↦ ?_) h.settled h.tagged h.map
  refine absurd hjob (not_inJob_of_pc ?_)
  rwa [setPeer_peers_self]

/-- Nothing that the answer of a peer outside of a job phase changes matters. -/
theorem Inv.answer {r : Reply} (h : s.Inv) : (s.answer i r).Inv := by
  refine h.setPeer ?_ rfl
  cases ht : (s.peers i).trans with
  | none =>
    obtain ⟨hq, hb, -⟩ := (h.peers i).free ht
    refine PeerOk.of_free ?_ ?_ ?_ ?_ <;> simp only [setPeer_peers_self]
    · exact ht
    · exact hq
    · exact hb
    · exact trivial
  | some t =>
    obtain ⟨q, hin, -⟩ := (h.peers i).inTrans ht
    refine PeerOk.of_trans (t := t) (q := q) ?_ ?_ ?_
    · simpa using ht
    · exact
        { qTrans := by simpa using hin.qTrans
          buffer := by rw [setPeer_peers_self]; exact hin.buffer
          count := by rw [setPeer_peers_self]; exact hin.count
          lt := hin.lt
          peer := hin.peer
          running := hin.running
          key := hin.key
          fresh := hin.fresh }
    · rw [setPeer_peers_self]
      exact trivial

omit [DecidableEq ι] in
/-- Taking queues from the map is of no consequence. -/
theorem Inv.shrink {clients : List ι} {map : Key → Option ℕ} (h : s.Inv)
    (hfree : (s.peers i).trans = none)
    (hmap : ∀ k q, map k = some q → s.m_mapKeyQueue k = some q) :
    { s with clients := clients, m_mapKeyQueue := map }.Inv := by
  have hk : s.Keeps { s with clients := clients, m_mapKeyQueue := map } i :=
    { peers := fun _ _ ↦ rfl
      heap := fun _ _ ↦ rfl
      fresh := Nat.le_refl _
      nextTx := Nat.le_refl _
      txs := fun _ _ _ ↦ rfl
      jobs := fun k _ pending hjob ↦ ⟨[], untagged_nil, by simpa⟩ }
  obtain ⟨hq, hb, hpc⟩ := (h.peers i).free hfree
  refine h.of_keeps hk (PeerOk.of_free hfree hq hb hpc) (fun k hjob j hj hjk ↦ ?_) h.settled
    h.tagged fun k q hq ↦ h.map k q (hmap k q hq)
  exact hj (h.alone j i k hjk hjob)

/-! ### The end of a transaction -/

section RecordEnd

variable (s) (i) (e : Ending)

@[simp] theorem recordEnd_core : (s.recordEnd i e).core = s.core := by
  unfold recordEnd
  split <;> rfl

@[simp] theorem recordEnd_heap : (s.recordEnd i e).heap = s.heap := by
  unfold recordEnd
  split <;> rfl

@[simp] theorem recordEnd_fresh : (s.recordEnd i e).fresh = s.fresh := by
  unfold recordEnd
  split <;> rfl

@[simp] theorem recordEnd_nextTx : (s.recordEnd i e).nextTx = s.nextTx := by
  unfold recordEnd
  split <;> rfl

@[simp] theorem recordEnd_map : (s.recordEnd i e).m_mapKeyQueue = s.m_mapKeyQueue := by
  unfold recordEnd
  split <;> rfl

theorem recordEnd_peers_self : (s.recordEnd i e).peers i = { s.peers i with trans := none } := by
  unfold recordEnd
  split
  · simp
  · next h => rw [← h]

theorem recordEnd_peers_of_ne {j : ι} (hne : j ≠ i) : (s.recordEnd i e).peers j = s.peers j := by
  unfold recordEnd
  split
  · simp [hne]
  · rfl

theorem recordEnd_txs_of_trans {t : ℕ} (ht : (s.peers i).trans = some t) :
    (s.recordEnd i e).txs = Function.update s.txs t { s.txs t with ending := e } := by
  simp [recordEnd, ht]

theorem recordEnd_txs_of_ne {t : ℕ} (ht : (s.peers i).trans ≠ some t) :
    (s.recordEnd i e).txs t = s.txs t := by
  unfold recordEnd
  split
  · next u hu =>
    have hne : t ≠ u := by
      rintro rfl
      exact ht hu
    simp [hne]
  · rfl

theorem recordEnd_sent (t : ℕ) : ((s.recordEnd i e).txs t).sent = (s.txs t).sent := by
  by_cases ht : (s.peers i).trans = some t
  · simp [recordEnd_txs_of_trans s i e ht]
  · rw [recordEnd_txs_of_ne s i e ht]

end RecordEnd

/-- **The end of a transaction**: `s₀` is the state after the work on the core queue, and `p` the
peer as it is afterwards. -/
theorem Inv.ends {s₀ : State ι} {e : Ending} {p : Peer} (h : s.Inv) (hk : s.Keeps s₀ i)
    (hpeers : s₀.peers = s.peers) (htxs : s₀.txs = s.txs) (hmap : s₀.m_mapKeyQueue = s.m_mapKeyQueue)
    (hp : p.trans = none ∧ p.m_qTrans = none ∧ p.m_bufferBatch = none ∧ p.pc = .idle)
    (hset : ((s₀.recordEnd i e).setPeer i p).Settled) :
    ((s₀.recordEnd i e).setPeer i p).Inv := by
  obtain ⟨htrans, hq, hb, hpc⟩ := hp
  have hk' : s.Keeps ((s₀.recordEnd i e).setPeer i p) i :=
    { peers := fun j hj ↦ by
        rw [setPeer_peers_of_ne _ hj, recordEnd_peers_of_ne _ _ _ hj, hpeers]
      heap := fun q hlt ↦ by simpa [State.setPeer] using hk.heap q hlt
      fresh := by simpa [State.setPeer] using hk.fresh
      nextTx := by simpa [State.setPeer] using hk.nextTx
      txs := fun t hlt hne ↦ by
        have ht : (s₀.peers i).trans ≠ some t := by
          rw [hpeers]
          intro ht
          obtain ⟨q, hin, -⟩ := (h.peers i).inTrans ht
          exact hne hin.peer
        show (s₀.recordEnd i e).txs t = s.txs t
        rw [recordEnd_txs_of_ne _ _ _ ht, htxs]
      jobs := fun k hk'' pending hjob ↦ by simpa [State.setPeer] using hk.jobs k hk'' pending hjob }
  refine h.of_keeps hk' ?_ (fun k hjob ↦ ?_) hset (fun t ↦ ?_) (fun k q hkq ↦ ?_)
  · refine PeerOk.of_free ?_ ?_ ?_ ?_ <;> rw [setPeer_peers_self]
    · exact htrans
    · exact hq
    · exact hb
    · rw [hpc]
      exact trivial
  · refine absurd hjob (not_inJob_of_pc ?_)
    rw [setPeer_peers_self, hpc]
    rfl
  · show ∀ e' ∈ ((s₀.recordEnd i e).txs t).sent, e'.tx = some t
    rw [recordEnd_sent, htxs]
    exact h.tagged t
  · have hkq' : s.m_mapKeyQueue k = some q := by
      rw [← hmap]
      simpa [State.setPeer] using hkq
    obtain ⟨hlt, hkey⟩ := h.map k q hkq'
    refine ⟨Nat.lt_of_lt_of_le hlt hk'.fresh, ?_⟩
    rw [hk'.heap q hlt, hkey]

/-- A transaction that is dropped leaves the queues as they are. -/
theorem Inv.settled_drop {s₀ : State ι} {p : Peer} (h : s.Inv)
    (hpeers : s₀.peers = s.peers) (htxs : s₀.txs = s.txs) (hnext : s₀.nextTx = s.nextTx)
    (hcore : ∀ k, (s₀.core k).stored = (s.core k).stored) :
    ((s₀.recordEnd i .dropped).setPeer i p).Settled := by
  refine h.settled.quiet
    { stored := fun k ↦ ⟨[], untagged_nil, by simpa [State.setPeer] using hcore k⟩
      nextTx := by simp [State.setPeer, hnext]
      txs := fun t ht ↦ ?_ }
  show t < s.nextTx ∧ (s₀.recordEnd i .dropped).txs t = s.txs t ∨
    ((s₀.recordEnd i .dropped).txs t).ending ≠ .committed ∧ _
  by_cases htrans : (s₀.peers i).trans = some t
  · right
    rw [hpeers] at htrans
    obtain ⟨q, hin, -⟩ := (h.peers i).inTrans htrans
    rw [recordEnd_txs_of_trans _ _ _ (hpeers ▸ htrans), Function.update_self]
    refine ⟨Ending.noConfusion, fun _ ↦ ?_⟩
    rw [hin.running]
    exact Ending.noConfusion
  · left
    refine ⟨?_, by rw [recordEnd_txs_of_ne _ _ _ htrans, htxs]⟩
    simpa [State.setPeer, hnext] using ht

/-- A commit whose messages have gone to their queue, in one piece. -/
theorem Inv.settled_commit {s₀ : State ι} {p : Peer} {t q : ℕ} {a b : List Entry} (h : s.Inv)
    (htrans : (s.peers i).trans = some t) (hin : s.InTrans i t q)
    (hpeers : s₀.peers = s.peers) (htxs : s₀.txs = s.txs) (hnext : s₀.nextTx = s.nextTx)
    (ha : Untagged a) (hb : Untagged b)
    (hstored : (s₀.core (s.txs t).key).stored =
      (s.core (s.txs t).key).stored ++ (a ++ (s.txs t).sent ++ b))
    (hothers : ∀ k ≠ (s.txs t).key, s₀.core k = s.core k) :
    ((s₀.recordEnd i .committed).setPeer i p).Settled :=
  h.settled.commits (h.tagged t)
    { running := hin.running
      lt := hin.lt
      stored := ⟨a, b, ha, hb, by simpa [State.setPeer] using hstored⟩
      others := fun k hk ↦ by simp [State.setPeer, hothers k hk]
      txs := by
        show (s₀.recordEnd i .committed).txs = _
        rw [recordEnd_txs_of_trans _ _ _ (hpeers ▸ htrans), htxs]
      nextTx := by simp [State.setPeer, hnext] }

end Parts

/-! ### One lemma for each request -/

section Requests

omit [DecidableEq ι] in
theorem Inv.register {key : Key} (h : s.Inv) (hfree : (s.peers i).trans = none) :
    (s.register key).Inv := by
  have hheap : ∀ q < s.fresh, ((s.register key).heap q).key = (s.heap q).key := fun q hq ↦ by
    simp [State.register, Nat.ne_of_lt hq]
  have hk : s.Keeps (s.register key) i :=
    { peers := fun _ _ ↦ rfl
      heap := hheap
      fresh := Nat.le_succ _
      nextTx := Nat.le_refl _
      txs := fun _ _ _ ↦ rfl
      jobs := fun k _ pending hjob ↦ ⟨[], untagged_nil, by simpa⟩ }
  obtain ⟨hq, hb, hpc⟩ := (h.peers i).free hfree
  refine h.of_keeps hk (PeerOk.of_free hfree hq hb ?_) (fun k hjob ↦ ?_) h.settled h.tagged ?_
  · show (s.register key).FreePc (s.peers i).pc
    generalize (s.peers i).pc = pc at hpc
    cases pc with
    | enqueuing q es => exact ⟨hpc.1, Nat.lt_succ_of_lt hpc.2⟩
    | _ => exact hpc
  · refine absurd hjob (not_inJob_of_pc ?_)
    show (s.peers i).pc.inJob = none
    generalize (s.peers i).pc = pc at hpc
    cases pc with
    | job q => exact hpc.elim
    | batched q ok => exact hpc.elim
    | _ => rfl
  · intro k q hkq
    by_cases hkey : k = key
    · subst hkey
      obtain rfl : s.fresh = q := by simpa [State.register] using hkq
      exact ⟨Nat.lt_succ_self _, by simp [State.register]⟩
    · have hkq' : s.m_mapKeyQueue k = some q := by simpa [State.register, hkey] using hkq
      obtain ⟨hlt, hk'⟩ := h.map k q hkq'
      exact ⟨Nat.lt_succ_of_lt hlt, by rw [hheap q hlt, hk']⟩

theorem Inv.beginTrans {key : Key} {q : ℕ} (h : s.Inv) (hpc : (s.peers i).pc = .idle)
    (hq : q < s.fresh) (hkey : (s.heap q).key = key) : (s.beginTrans i key q).Inv := by
  have hold : ∀ t < s.nextTx, (s.beginTrans i key q).txs t = s.txs t := fun t ht ↦ by
    simp [State.beginTrans, Nat.ne_of_lt ht]
  have hnew : (s.beginTrans i key q).txs s.nextTx = ⟨i, key, [], .running⟩ := by
    simp [State.beginTrans]
  have hpeer : (s.beginTrans i key q).peers i =
      ⟨0, some [], some q, .idle, .errCode .QUEUE_OK, some s.nextTx⟩ := by
    simp [State.beginTrans, hpc]
  have hk : s.Keeps (s.beginTrans i key q) i :=
    { peers := fun j hj ↦ by simp [State.beginTrans, hj]
      heap := fun _ _ ↦ rfl
      fresh := Nat.le_refl _
      nextTx := Nat.le_succ _
      txs := fun t ht _ ↦ hold t ht
      jobs := fun k _ pending hjob ↦ ⟨[], untagged_nil, by simpa⟩ }
  refine h.of_keeps hk ?_ (fun k hjob ↦ ?_) (h.settled.quiet ?_) (fun t ↦ ?_) h.map
  · refine PeerOk.of_trans (t := s.nextTx) (q := q) (by rw [hpeer]) ?_ (by rw [hpeer]; exact trivial)
    exact
      { qTrans := by rw [hpeer]
        buffer := by rw [hpeer, hnew]
        count := by rw [hpeer, hnew]; rfl
        lt := Nat.lt_succ_self _
        peer := by rw [hnew]
        running := by rw [hnew]
        key := by rw [hnew]; exact hkey
        fresh := hq }
  · refine absurd hjob (not_inJob_of_pc ?_)
    rw [hpeer]
    rfl
  · refine ⟨fun k ↦ ⟨[], untagged_nil, (List.append_nil _).symm⟩, Nat.le_succ _, fun t ht ↦ ?_⟩
    by_cases hlt : t < s.nextTx
    · exact .inl ⟨hlt, hold t hlt⟩
    · obtain rfl : t = s.nextTx := Nat.eq_of_lt_succ_of_not_lt ht hlt
      exact .inr ⟨by rw [hnew]; exact Ending.noConfusion, fun hlt' ↦ absurd hlt' hlt⟩
  · by_cases ht : t = s.nextTx
    · subst ht
      rw [hnew]
      exact fun e he ↦ absurd he List.not_mem_nil
    · have hsame : (s.beginTrans i key q).txs t = s.txs t := by simp [State.beginTrans, ht]
      rw [hsame]
      exact h.tagged t

theorem Inv.startTrans {key : Key} {started : Bool} (h : s.Inv) (hpc : (s.peers i).pc = .idle) :
    (s.startTrans i key started).Inv := by
  unfold State.startTrans
  split
  · exact h.answer
  · next hnone =>
    have hfree : (s.peers i).trans = none := by
      cases ht : (s.peers i).trans with
      | none => rfl
      | some t =>
        obtain ⟨q, hin, -⟩ := (h.peers i).inTrans ht
        simp [hin.qTrans] at hnone
    split
    · next q hq =>
      obtain ⟨hlt, hkey⟩ := h.map _ q hq
      exact h.beginTrans hpc hlt hkey
    · cases started with
      | false => exact h.answer
      | true =>
        refine Inv.beginTrans (h.register hfree) hpc (Nat.lt_succ_self _) ?_
        simp [State.register]

/-- Outside of a transaction: on to the core queue. -/
theorem Inv.enqueueAt {q : ℕ} {es : List Entry} (h : s.Inv) (hfree : (s.peers i).trans = none)
    (hq : q < s.fresh) (hes : Untagged es) : (s.enqueueAt i q es).Inv := by
  obtain ⟨hqt, hb, -⟩ := (h.peers i).free hfree
  unfold State.enqueueAt
  rw [hb]
  refine h.setPeer (PeerOk.of_free ?_ ?_ ?_ ?_) rfl <;> rw [setPeer_peers_self]
  · exact hfree
  · exact hqt
  · exact hb
  · exact ⟨hes, hq⟩

/-- In a transaction: into the batch buffer. -/
theorem Inv.enqueue_batch {t q : ℕ} {es : List Entry} (h : s.Inv)
    (htrans : (s.peers i).trans = some t) (hin : s.InTrans i t q)
    (hes : ∀ e ∈ es, e.tx = some t) : ((s.recordSent i es).enqueueAt i q es).Inv := by
  have hpeers : ((s.recordSent i es).enqueueAt i q es).peers = Function.update s.peers i
      { s.peers i with
        m_bufferBatch := some ((s.txs t).sent ++ es)
        m_count := (s.txs t).sent.length + es.length
        pc := .idle
        reply := .index (some ((s.txs t).sent.length + es.length)) } := by
    simp [recordSent, htrans, State.enqueueAt, hin.buffer, hin.count, State.setPeer]
  have hstate : (s.recordSent i es).enqueueAt i q es = { s with
      peers := ((s.recordSent i es).enqueueAt i q es).peers
      txs := Function.update s.txs t { s.txs t with sent := (s.txs t).sent ++ es } } := by
    simp [recordSent, htrans, State.enqueueAt, hin.buffer, State.setPeer]
  rw [hstate, hpeers]
  clear hstate hpeers
  refine h.of_keeps
    { peers := fun j hj ↦ Function.update_of_ne hj _ _
      heap := fun _ _ ↦ rfl
      fresh := Nat.le_refl _
      nextTx := Nat.le_refl _
      txs := fun u _ hne ↦ Function.update_of_ne (by rintro rfl; exact hne hin.peer) _ _
      jobs := fun k _ pending hjob ↦ ⟨[], untagged_nil, by simpa⟩ } ?_ (fun k hjob ↦ ?_)
    (h.settled.quiet ?_) (fun u ↦ ?_) h.map
  · refine PeerOk.of_trans (t := t) (q := q) (by simpa using htrans) ?_ (by simp [TransPc])
    exact
      { qTrans := by simpa using hin.qTrans
        buffer := by simp
        count := by simp
        lt := hin.lt
        peer := by simpa using hin.peer
        running := by simpa using hin.running
        key := by simpa using hin.key
        fresh := hin.fresh }
  · refine absurd hjob (not_inJob_of_pc ?_)
    simp [Pc.inJob]
  · refine ⟨fun k ↦ ⟨[], untagged_nil, (List.append_nil _).symm⟩, Nat.le_refl _, fun u hu ↦ ?_⟩
    by_cases hut : u = t
    · subst hut
      exact .inr ⟨by simp [hin.running], fun _ ↦ by simp [hin.running]⟩
    · exact .inl ⟨hu, Function.update_of_ne hut _ _⟩
  · by_cases hut : u = t
    · subst hut
      intro e he
      have he' : e ∈ (s.txs u).sent ∨ e ∈ es := by simpa using he
      exact he'.elim (h.tagged u e) (hes e)
    · show ∀ e ∈ (Function.update s.txs t _ u).sent, e.tx = some u
      rw [Function.update_of_ne hut]
      exact h.tagged u

theorem Inv.enqueue {key : Key} {msgs : List Msg} (h : s.Inv) : (s.enqueue i key msgs).Inv := by
  unfold State.enqueue
  dsimp only
  generalize hes : msgs.map (fun m ↦ (⟨m, pretreat key, (s.peers i).trans⟩ : Entry)) = es
  have htag : ∀ e ∈ es, e.tx = (s.peers i).trans := by
    subst hes
    simp
  cases htrans : (s.peers i).trans with
  | none =>
    rw [htrans] at htag
    have hrecord : s.recordSent i es = s := by simp [recordSent, htrans]
    obtain ⟨hqt, hb, -⟩ := (h.peers i).free htrans
    rw [hrecord, hqt]
    dsimp only
    split
    · next q hq =>
      exact h.enqueueAt htrans (h.map _ q hq).1 htag
    · refine h.setPeer (PeerOk.of_free ?_ ?_ ?_ ?_) rfl <;> rw [setPeer_peers_self]
      · exact htrans
      · exact hb
      · exact htag
  | some t =>
    rw [htrans] at htag
    obtain ⟨q, hin, -⟩ := (h.peers i).inTrans htrans
    have hq : ((s.recordSent i es).peers i).m_qTrans = some q := by
      simpa [recordSent, htrans] using hin.qTrans
    rw [hq]
    exact h.enqueue_batch htrans hin htag

/-- A new object for a key that `Find` has not found. -/
theorem Inv.create {key : Key} {es : List Entry} (h : s.Inv)
    (hpc : (s.peers i).pc = .missing key es) :
    ((s.register key).enqueueAt i s.fresh es).Inv := by
  have hfree : (s.peers i).trans = none := by
    cases ht : (s.peers i).trans with
    | none => rfl
    | some t =>
      obtain ⟨q, -, htpc⟩ := (h.peers i).inTrans ht
      rw [hpc] at htpc
      exact htpc.elim
  obtain ⟨-, -, hes⟩ := (h.peers i).free hfree
  rw [hpc] at hes
  exact (h.register hfree).enqueueAt hfree (Nat.lt_succ_self _) hes

/-- A message sent outside of transactions reaches its queue, or the job that is open there. -/
theorem Inv.store {q : ℕ} {es : List Entry} {r : Reply} (h : s.Inv)
    (hpc : (s.peers i).pc = .enqueuing q es) :
    ((s.setCore (s.heap q).key ((s.core (s.heap q).key).enqueue es)).answer i r).Inv := by
  have hfree : (s.peers i).trans = none := by
    cases ht : (s.peers i).trans with
    | none => rfl
    | some t =>
      obtain ⟨q, -, htpc⟩ := (h.peers i).inTrans ht
      rw [hpc] at htpc
      exact htpc.elim
  obtain ⟨hqt, hb, hes⟩ := (h.peers i).free hfree
  rw [hpc] at hes
  generalize (s.heap q).key = k₀
  have hk : s.Keeps (s.setCore k₀ ((s.core k₀).enqueue es)) i :=
    { peers := fun _ _ ↦ rfl
      heap := fun _ _ ↦ rfl
      fresh := Nat.le_refl _
      nextTx := Nat.le_refl _
      txs := fun _ _ _ ↦ rfl
      jobs := fun k _ pending hjob ↦ by
        by_cases hkk : k = k₀
        · subst hkk
          exact ⟨es, hes.1, by simp [setCore, CoreQueue.enqueue, hjob]⟩
        · exact ⟨[], untagged_nil, by simpa [setCore, hkk] using hjob⟩ }
  refine Inv.answer (h.of_keeps hk (PeerOk.of_free hfree hqt hb ?_) (fun k hjob ↦ ?_)
    (h.settled.quiet ?_) h.tagged h.map)
  · show FreePc _ (s.peers i).pc
    rw [hpc]
    exact hes
  · refine absurd hjob (not_inJob_of_pc ?_)
    show (s.peers i).pc.inJob = none
    rw [hpc]
    rfl
  · refine ⟨fun k ↦ ?_, Nat.le_refl _, fun t ht ↦ .inl ⟨ht, rfl⟩⟩
    by_cases hkk : k = k₀
    · subst hkk
      -- With an open job, nothing is stored yet.
      cases hjob : (s.core k).job with
      | none => exact ⟨es, hes.1, by simp [setCore, CoreQueue.enqueue, hjob]⟩
      | some pending => exact ⟨[], untagged_nil, by simp [setCore, CoreQueue.enqueue, hjob]⟩
    · exact ⟨[], untagged_nil, by simp [setCore, hkk]⟩

/-- Rollback, cancel and disconnect. -/
theorem Inv.drop {p : Peer} (h : s.Inv)
    (hp : p.trans = none ∧ p.m_qTrans = none ∧ p.m_bufferBatch = none ∧ p.pc = .idle) :
    ((s.recordEnd i .dropped).setPeer i p).Inv :=
  h.ends (Keeps.refl s i) rfl rfl rfl hp (h.settled_drop rfl rfl rfl fun _ ↦ rfl)

theorem Inv.onCancel (h : s.Inv) (hpc : (s.peers i).pc = .idle) : (s.onCancel i).Inv := by
  refine h.drop ?_
  rw [recordEnd_peers_self]
  exact ⟨rfl, rfl, rfl, hpc⟩

theorem Inv.onReleaseSource (h : s.Inv) (hpc : (s.peers i).pc = .idle) :
    (s.onReleaseSource i).Inv := by
  have hcancel := h.onCancel hpc
  have hfree : ((s.onCancel i).peers i).trans = none := by
    simp [State.onCancel, recordEnd_peers_self, Peer.unlock]
  refine hcancel.shrink hfree fun k q hq ↦ ?_
  split at hq
  · cases hq
  · exact hq

theorem Inv.onSwitchFrom (h : s.Inv) : (s.onSwitchFrom i).Inv := by
  have hset : (s.setPeer i ⟨0, none, none, .idle, .none, none⟩).Inv := by
    refine h.setPeer (PeerOk.of_free ?_ ?_ ?_ ?_) rfl <;> rw [setPeer_peers_self]
    exact trivial
  exact hset.shrink (i := i) (by simp) fun _ _ hq ↦ hq

/-- `Close` outside of a transaction. -/
theorem Inv.close {key : Key} {closed : ErrCode} (h : s.Inv) (hpc : (s.peers i).pc = .idle)
    (hc : s.Undisturbed (.close i key closed)) : (s.close i key closed).Inv := by
  obtain ⟨hqt, hjob⟩ := hc
  have hfree : (s.peers i).trans = none := by
    cases ht : (s.peers i).trans with
    | none => rfl
    | some t =>
      obtain ⟨q, hin, -⟩ := (h.peers i).inTrans ht
      rw [hin.qTrans] at hqt
      cases hqt
  have hset : (s.setPeer i (s.peers i).unlock).Inv := by
    refine h.setPeer (PeerOk.of_free ?_ ?_ ?_ ?_) (by rw [Peer.unlock, hpc]; rfl) <;>
      rw [setPeer_peers_self]
    · exact hfree
    · rfl
    · rfl
    · show FreePc _ (s.peers i).pc
      rw [hpc]
      exact trivial
  unfold State.close
  dsimp only
  split
  · exact hset.answer
  · next q hq =>
    have hrefs : ((s.setPeer i (s.peers i).unlock).unshared q) = s.unshared q := by
      refine congrArg s.clients.all (funext fun j ↦ ?_)
      by_cases hj : j = i
      · rw [hj, setPeer_peers_self]
        simp [Peer.refers, Peer.unlock, hqt]
      · rw [setPeer_peers_of_ne _ hj]
    cases hun : s.unshared q with
    | false =>
      rw [hrefs, hun]
      exact hset.answer
    | true =>
      rw [hrefs, hun]
      simp only [cond_true]
      split
      · -- There is no job to be lost on the queue that is stopped.
        have hnone : (s.core (s.heap q).key).job = none := hjob q hq hun
        have hcore : (s.core (s.heap q).key).abortJob = s.core (s.heap q).key := by
          rw [CoreQueue.abortJob, ← hnone]
        refine Inv.answer ?_
        have hmap : ∀ k q', Function.update s.m_mapKeyQueue (pretreat key) none k = some q' →
            (s.setPeer i (s.peers i).unlock).m_mapKeyQueue k = some q' := fun k q' hq' ↦ by
          by_cases hk : k = pretreat key
          · simp [hk] at hq'
          · simpa [State.setPeer, hk] using hq'
        have hshrink : Inv { s.setPeer i (s.peers i).unlock with
            clients := s.clients
            m_mapKeyQueue := Function.update s.m_mapKeyQueue (pretreat key) none } :=
          hset.shrink (i := i) (by simpa [Peer.unlock] using hfree) hmap
        convert hshrink using 1
        simp [setCore, State.setPeer, hcore]
      · exact hset.answer

/-- A commit that fails before or at its first core call. -/
theorem Inv.endBatch {c : ErrCode} (h : s.Inv) (hne : c ≠ .QUEUE_OK) : (s.endBatch i c).Inv := by
  unfold State.endBatch
  rw [if_neg hne]
  refine h.drop ?_
  rw [recordEnd_peers_self]
  exact ⟨rfl, rfl, rfl, rfl⟩

/-- A commit that succeeds, with `s₀` the state after its last core call. -/
theorem Inv.commit {s₀ : State ι} {t q : ℕ} {a b : List Entry} (h : s.Inv)
    (htrans : (s.peers i).trans = some t) (hin : s.InTrans i t q) (hk : s.Keeps s₀ i)
    (hpeers : s₀.peers = s.peers) (htxs : s₀.txs = s.txs) (hmap : s₀.m_mapKeyQueue = s.m_mapKeyQueue)
    (hnext : s₀.nextTx = s.nextTx) (ha : Untagged a) (hb : Untagged b)
    (hstored : (s₀.core (s.txs t).key).stored =
      (s.core (s.txs t).key).stored ++ (a ++ (s.txs t).sent ++ b))
    (hothers : ∀ k ≠ (s.txs t).key, s₀.core k = s.core k) : (s₀.endBatch i .QUEUE_OK).Inv := by
  refine h.ends hk hpeers htxs hmap ?_
    (h.settled_commit htrans hin hpeers htxs hnext ha hb hstored hothers)
  rw [recordEnd_peers_self]
  exact ⟨rfl, rfl, rfl, rfl⟩

/-- `StartJob` under the lock of the object. -/
theorem Inv.startJob {t q : ℕ} (h : s.Inv) (htrans : (s.peers i).trans = some t)
    (hin : s.InTrans i t q) (hnojob : s.NoJob q) :
    (((s.setLock q (some i)).setCore (s.heap q).key (s.core (s.heap q).key).startJob).setPeer i
      { s.peers i with pc := .job q }).Inv := by
  have hheap : ∀ q', ((s.setLock q (some i)).heap q').key = (s.heap q').key := fun q' ↦ by
    by_cases hq : q' = q
    · subst hq
      simp [setLock]
    · simp [setLock, hq]
  have hnone : (s.core (s.heap q).key).job = none := hnojob
  refine h.of_keeps
    { peers := fun j hj ↦ setPeer_peers_of_ne _ hj
      heap := fun q' _ ↦ hheap q'
      fresh := Nat.le_refl _
      nextTx := Nat.le_refl _
      txs := fun _ _ _ ↦ rfl
      jobs := fun k _ pending hjob ↦ ⟨[], untagged_nil, ?_⟩ } ?_ (fun k hjob j hj hjk ↦ ?_)
    (h.settled.quiet ⟨fun k ↦ ⟨[], untagged_nil, ?_⟩, Nat.le_refl _, fun u hu ↦ .inl ⟨hu, rfl⟩⟩)
    h.tagged (fun k q' hq' ↦ ?_)
  · by_cases hk : k = (s.heap q).key
    · rw [hk, hnone] at hjob
      cases hjob
    · simpa [setCore, State.setPeer, setLock, hk] using hjob
  · refine PeerOk.of_trans (t := t) (q := q) (by simpa using htrans) ?_ ?_
    · exact
        { qTrans := by simpa using hin.qTrans
          buffer := by rw [setPeer_peers_self]; exact hin.buffer
          count := by rw [setPeer_peers_self]; exact hin.count
          lt := hin.lt
          peer := hin.peer
          running := hin.running
          key := (hheap q).trans hin.key
          fresh := hin.fresh }
    · rw [setPeer_peers_self]
      refine ⟨rfl, [], ?_, untagged_nil⟩
      show (Function.update s.core (s.heap q).key _ (s.txs t).key).job = some []
      rw [hin.key, Function.update_self, CoreQueue.startJob, ← hin.key, hnone]
      rfl
  · -- Another peer's job would be open on this queue.
    obtain ⟨q', hpc, hkey⟩ := hjob
    rw [setPeer_peers_self] at hpc
    obtain rfl : q = q' := Option.some.inj hpc
    have hk : k = (s.heap q).key := hkey.symm.trans (hheap q)
    obtain ⟨pending, hopen⟩ := (h.peers j).job_open hjk
    rw [hk, hnone] at hopen
    cases hopen
  · by_cases hk : k = (s.heap q).key
    · simp [setCore, State.setPeer, CoreQueue.startJob, hk]
    · simp [setCore, State.setPeer, setLock, hk]
  · obtain ⟨hlt, hkey⟩ := h.map k q' hq'
    exact ⟨hlt, (hheap q').trans hkey⟩

/-- `EndTrans` of a client that is in no transaction. -/
theorem Inv.noTrans {r : Reply} (h : s.Inv)
    (hnone : (s.peers i).m_bufferBatch = none ∨ (s.peers i).m_qTrans = none) :
    ((s.recordEnd i .dropped).answer i r).Inv := by
  have hfree : (s.peers i).trans = none := by
    cases ht : (s.peers i).trans with
    | none => rfl
    | some t =>
      obtain ⟨q, hin, -⟩ := (h.peers i).inTrans ht
      rcases hnone with hb | hq
      · cases hb.symm.trans hin.buffer
      · cases hq.symm.trans hin.qTrans
  have hrecord : s.recordEnd i .dropped = s := by simp [recordEnd, hfree]
  rw [hrecord]
  exact h.answer

omit [DecidableEq ι] in
/-- The transaction a peer is in, from the fields that `EndTrans` looks at. -/
theorem Inv.batch {buffer : List Entry} {q : ℕ} (h : s.Inv)
    (hb : (s.peers i).m_bufferBatch = some buffer) (hq : (s.peers i).m_qTrans = some q) :
    ∃ t, (s.peers i).trans = some t ∧ s.InTrans i t q ∧ buffer = (s.txs t).sent := by
  obtain ⟨t, htrans, hin⟩ := (h.peers i).trans_of_qTrans hq
  exact ⟨t, htrans, hin, Option.some.inj (hb.symm.trans hin.buffer)⟩

theorem Inv.commitNone {buffer : List Entry} {q : ℕ} (h : s.Inv)
    (hb : (s.peers i).m_bufferBatch = some buffer) (hq : (s.peers i).m_qTrans = some q)
    (hcount : (s.peers i).m_count = 0) : (s.endBatch i .QUEUE_OK).Inv := by
  obtain ⟨t, htrans, hin, -⟩ := h.batch hb hq
  have hsent : (s.txs t).sent = [] := List.length_eq_zero_iff.1 (hin.count.symm.trans hcount)
  exact h.commit htrans hin (Keeps.refl s i) rfl rfl rfl rfl untagged_nil untagged_nil
    (by simp [hsent]) fun _ _ ↦ rfl

/-- The single message of a batch goes to its queue, where no job is open. -/
theorem Inv.commitOne {buffer : List Entry} {q : ℕ} (h : s.Inv)
    (hb : (s.peers i).m_bufferBatch = some buffer) (hq : (s.peers i).m_qTrans = some q)
    (hcount : (s.peers i).m_count = 1) (hnojob : s.NoJob q) :
    ((s.setCore (s.heap q).key ((s.core (s.heap q).key).enqueue (buffer.take 1))).endBatch i
      .QUEUE_OK).Inv := by
  obtain ⟨t, htrans, hin, rfl⟩ := h.batch hb hq
  have hnone : (s.core (s.heap q).key).job = none := hnojob
  have hsent : (s.txs t).sent.take 1 = (s.txs t).sent :=
    List.take_of_length_le (Nat.le_of_eq (hin.count.symm.trans hcount))
  rw [hsent, hin.key, CoreQueue.enqueue, ← hin.key, hnone]
  refine h.commit htrans hin
    { peers := fun _ _ ↦ rfl
      heap := fun _ _ ↦ rfl
      fresh := Nat.le_refl _
      nextTx := Nat.le_refl _
      txs := fun _ _ _ ↦ rfl
      jobs := fun k _ pending hjob ↦ ⟨[], untagged_nil, ?_⟩ }
    rfl rfl rfl rfl untagged_nil untagged_nil ?_ fun k hk ↦ ?_
  · by_cases hk : k = (s.heap q).key
    · rw [hk, hnone] at hjob
      cases hjob
    · simpa [setCore, hk] using hjob
  · simp [setCore, hin.key]
  · simp [setCore, hin.key, hk]

omit [DecidableEq ι] in
/-- What the core calls inside of a job leave to the other peers. -/
theorem keeps_of_job {q : ℕ} {owner : Option ι} {c : CoreQueue}
    (hpc : (s.peers i).pc.inJob = some q) :
    s.Keeps ((s.setLock q owner).setCore (s.heap q).key c) i where
  peers _ _ := rfl
  heap q' _ := by
    by_cases hq : q' = q
    · subst hq
      simp [setCore, setLock]
    · simp [setCore, setLock, hq]
  fresh := Nat.le_refl _
  nextTx := Nat.le_refl _
  txs _ _ _ := rfl
  jobs k hk pending hjob := by
    have hne : k ≠ (s.heap q).key := by
      rintro rfl
      exact hk ⟨q, hpc, rfl⟩
    exact ⟨[], untagged_nil, by simpa [setCore, setLock, hne] using hjob⟩

/-- `BatchEnqueue`: after it, the open job holds the batch, unless the call has failed. -/
theorem Inv.batchEnqueue {q n : ℕ} {ok : Bool} (h : s.Inv) (hpc : (s.peers i).pc = .job q) :
    (s.batchEnqueue i q ok n).Inv := by
  have hwork : (s.peers i).pc.inJob = some q := by rw [hpc]; rfl
  obtain ⟨t, htrans, hin, htpc⟩ := (h.peers i).trans_of_inJob hwork
  rw [hpc] at htpc
  obtain ⟨-, pending, hjob, hpend⟩ := htpc
  unfold State.batchEnqueue
  dsimp only
  rw [hin.buffer, hin.key, Option.getD_some, CoreQueue.enqueue, hjob]
  dsimp only
  generalize hes : (bif ok then (s.txs t).sent else (s.txs t).sent.take n) = es
  refine h.of_keeps
    { peers := fun j hj ↦ setPeer_peers_of_ne _ hj
      heap := fun _ _ ↦ rfl
      fresh := Nat.le_refl _
      nextTx := Nat.le_refl _
      txs := fun _ _ _ ↦ rfl
      jobs := fun k hk pending' hjob' ↦ ⟨[], untagged_nil, ?_⟩ } ?_ (fun k hjob' j hj hjk ↦ ?_)
    (h.settled.quiet ⟨fun k ↦ ⟨[], untagged_nil, ?_⟩, Nat.le_refl _, fun u hu ↦ .inl ⟨hu, rfl⟩⟩)
    h.tagged h.map
  · have hne : k ≠ (s.txs t).key := by
      rintro rfl
      exact hk ⟨q, hwork, hin.key⟩
    simpa [setCore, State.setPeer, hne] using hjob'
  · refine PeerOk.of_trans (t := t) (q := q) (by simpa [setCore] using htrans) ?_ ?_
    · exact
        { qTrans := by rw [setPeer_peers_self]; exact hin.qTrans
          buffer := by rw [setPeer_peers_self]; exact hin.buffer
          count := by rw [setPeer_peers_self]; exact hin.count
          lt := hin.lt
          peer := hin.peer
          running := hin.running
          key := hin.key
          fresh := hin.fresh }
    · rw [setPeer_peers_self]
      refine ⟨rfl, pending ++ es, by simp [setCore, State.setPeer], fun hok ↦ ?_⟩
      subst hok
      exact ⟨pending, [], by rw [← hes, cond_true, List.append_nil]; rfl, hpend, untagged_nil⟩
  · obtain ⟨q', hq', hkey⟩ := hjob'
    rw [setPeer_peers_self] at hq'
    obtain rfl : q = q' := Option.some.inj hq'
    exact hj (h.alone j i k hjk ⟨q, hwork, hkey⟩)
  · by_cases hk : k = (s.txs t).key
    · simp [setCore, State.setPeer, hk]
    · simp [setCore, State.setPeer, hk]

/-- `EndJob` or `AbortJob`. -/
theorem Inv.endJob {q : ℕ} {ok ended : Bool} (h : s.Inv) (hpc : (s.peers i).pc = .batched q ok) :
    (s.endJob i q ok ended).Inv := by
  have hwork : (s.peers i).pc.inJob = some q := by rw [hpc]; rfl
  obtain ⟨t, htrans, hin, htpc⟩ := (h.peers i).trans_of_inJob hwork
  rw [hpc] at htpc
  obtain ⟨-, pending, hjob, hpend⟩ := htpc
  have habort : ∀ c ≠ ErrCode.QUEUE_OK, (((s.setLock q none).setCore (s.heap q).key
      (s.core (s.heap q).key).abortJob).endBatch i c).Inv := by
    intro c hne
    unfold State.endBatch
    rw [if_neg hne]
    refine h.ends (keeps_of_job hwork) rfl rfl rfl ?_ (h.settled_drop rfl rfl rfl fun k ↦ ?_)
    · rw [recordEnd_peers_self]
      exact ⟨rfl, rfl, rfl, rfl⟩
    · by_cases hk : k = (s.heap q).key
      · simp [setCore, setLock, CoreQueue.abortJob, hk]
      · simp [setCore, setLock, hk]
  cases ok with
  | false => exact habort _ ErrCode.noConfusion
  | true =>
    cases ended with
    | false => exact habort _ ErrCode.noConfusion
    | true =>
      obtain ⟨a, b, rfl, ha, hb⟩ := hpend rfl
      refine h.commit htrans hin (keeps_of_job hwork) rfl rfl rfl rfl ha hb ?_ fun k hk ↦ ?_
      · simp [setCore, setLock, CoreQueue.endJob, hin.key, hjob]
      · simp [setCore, setLock, hin.key, hk]

end Requests

/-! ### Runs -/

omit [DecidableEq ι] in
/-- The condition on a commit, of those that have a message. -/
theorem Undisturbed.noJob {ok : Bool} {q : ℕ} (hc : s.Undisturbed (.endTrans i false ok))
    (hcount : (s.peers i).m_count ≠ 0) (hq : (s.peers i).m_qTrans = some q) : s.NoJob q := by
  rcases hc with hroll | hzero | hnojob
  · cases hroll
  · exact absurd hzero hcount
  · exact hnojob q hq

/-- **One step.** -/
theorem Inv.step {a : Act ι} (h : s.Inv) (hc : s.Undisturbed a) (hstep : s.step a = some s') :
    s'.Inv := by
  cases steps_of_step hstep with
  | switchFrom => exact h.onSwitchFrom
  | startTrans hpc => exact h.startTrans hpc
  | enqueue => exact h.enqueue
  | create hpc => exact h.create hpc
  | store hpc => exact h.store hpc
  | noIndex => exact h.answer
  | noTrans hnone => exact h.noTrans hnone
  | rollback hpc =>
    refine h.drop ?_
    rw [recordEnd_peers_self]
    exact ⟨rfl, rfl, rfl, hpc⟩
  | commitNone hb hq hcount => exact h.commitNone hb hq hcount
  | commitFail hne => exact h.endBatch hne
  | commitOne hb hq hcount =>
    have hcount' : ∀ {n : ℕ}, n = 1 → n ≠ 0 := by omega
    exact h.commitOne hb hq hcount (hc.noJob (hcount' hcount) hq)
  | startJob hb hq hcount =>
    obtain ⟨t, htrans, hin, -⟩ := h.batch hb hq
    exact h.startJob htrans hin (hc.noJob hcount hq)
  | batchEnqueue hpc => exact h.batchEnqueue hpc
  | endJob hpc => exact h.endJob hpc
  | close hpc => exact h.close hpc hc
  | cancel hpc => exact h.onCancel hpc
  | releaseSource hpc => exact h.onReleaseSource hpc

omit [DecidableEq ι] in
theorem inv_initial [Inhabited ι] (stored : Key → List Msg) :
    (initial stored : State ι).Inv where
  peers i := PeerOk.of_free rfl rfl rfl trivial
  alone i j k hi _ := absurd hi (not_inJob_of_pc rfl)
  settled := by
    refine ⟨fun t ht ↦ absurd ht (Nat.not_lt_zero t), fun k e he t htag ↦ ?_⟩
    obtain ⟨m, -, rfl⟩ := List.mem_map.1 he
    cases htag
  tagged t e he := absurd he List.not_mem_nil
  map k q hq := by cases hq

/-! ### The record of a transaction -/

section Record

variable {t : ℕ}

/-- The record of transaction `t` is as before. -/
def Untouched (t : ℕ) (s s' : State ι) : Prop := s'.txs t = s.txs t ∧ s.nextTx ≤ s'.nextTx

omit [DecidableEq ι] in
theorem untouched_rfl : Untouched t s s := ⟨rfl, Nat.le_refl _⟩

theorem untouched_recordEnd (e : Ending) (hne : (s.peers i).trans ≠ some t) :
    Untouched t s (s.recordEnd i e) :=
  ⟨recordEnd_txs_of_ne s i e hne, Nat.le_of_eq (recordEnd_nextTx s i e).symm⟩

omit [DecidableEq ι] in
theorem untouched_recordSent (es : List Entry) (hne : (s.peers i).trans ≠ some t) :
    Untouched t s (s.recordSent i es) := by
  unfold recordSent
  split
  · next u hu =>
    have htu : t ≠ u := by
      rintro rfl
      exact hne hu
    exact ⟨Function.update_of_ne htu _ _, Nat.le_refl _⟩
  · exact untouched_rfl

theorem untouched_enqueueAt (q : ℕ) (es : List Entry) :
    Untouched t s (s.enqueueAt i q es) := by
  unfold State.enqueueAt
  split <;> exact untouched_rfl

theorem untouched_startTrans (key : Key) (started : Bool) (ht : t < s.nextTx) :
    Untouched t s (s.startTrans i key started) := by
  have hne : t ≠ s.nextTx := Nat.ne_of_lt ht
  unfold State.startTrans
  split
  · exact untouched_rfl
  · split
    · exact ⟨Function.update_of_ne hne _ _, Nat.le_succ _⟩
    · cases started with
      | false => exact untouched_rfl
      | true => exact ⟨Function.update_of_ne hne _ _, Nat.le_succ _⟩

theorem untouched_enqueue (key : Key) (msgs : List Msg) (hne : (s.peers i).trans ≠ some t) :
    Untouched t s (s.enqueue i key msgs) := by
  unfold State.enqueue
  dsimp only
  generalize msgs.map (fun m ↦ (⟨m, pretreat key, (s.peers i).trans⟩ : Entry)) = es
  have hsent := untouched_recordSent es hne
  have hat : ∀ q, Untouched t s ((s.recordSent i es).enqueueAt i q es) := fun q ↦
    have h := untouched_enqueueAt (s := s.recordSent i es) (i := i) (t := t) q es
    ⟨h.1.trans hsent.1, Nat.le_trans hsent.2 h.2⟩
  split
  · exact hat _
  · split
    · exact hat _
    · exact hsent

theorem untouched_endBatch (c : ErrCode) (hne : (s.peers i).trans ≠ some t) :
    Untouched t s (s.endBatch i c) := untouched_recordEnd _ hne

theorem untouched_endJob (q : ℕ) (batched ended : Bool) (hne : (s.peers i).trans ≠ some t) :
    Untouched t s (s.endJob i q batched ended) := by
  have hend : ∀ c e, Untouched t s
      (((s.setLock q none).setCore (s.heap q).key c).recordEnd i e) := fun c e ↦
    untouched_recordEnd (s := (s.setLock q none).setCore (s.heap q).key c) e hne
  cases batched with
  | false => exact hend _ _
  | true => cases ended <;> exact hend _ _

theorem untouched_close (key : Key) (closed : ErrCode) :
    Untouched t s (s.close i key closed) := by
  unfold State.close
  dsimp only
  split
  · exact untouched_rfl
  · next q _ =>
    cases (s.setPeer i (s.peers i).unlock).unshared q with
    | false => exact untouched_rfl
    | true =>
      rw [cond_true]
      split <;> exact untouched_rfl

/-- A step changes no transaction but the one its peer is in. -/
theorem untouched_of_step {a : Act ι} (ht : t < s.nextTx)
    (hne : (s.peers a.peer).trans ≠ some t) (hstep : s.step a = some s') : Untouched t s s' := by
  cases steps_of_step hstep with
  | switchFrom => exact untouched_rfl
  | startTrans => exact untouched_startTrans _ _ ht
  | enqueue => exact untouched_enqueue _ _ hne
  | @create i key es => exact untouched_enqueueAt (s := s.register key) (i := i) _ es
  | store => exact untouched_rfl
  | noIndex => exact untouched_rfl
  | noTrans => exact untouched_recordEnd .dropped hne
  | rollback => exact untouched_recordEnd .dropped hne
  | commitNone => exact untouched_endBatch _ hne
  | commitFail => exact untouched_endBatch _ hne
  | commitOne => exact untouched_endBatch (s := s.setCore _ _) _ hne
  | startJob => exact untouched_rfl
  | batchEnqueue => exact untouched_rfl
  | endJob => exact untouched_endJob _ _ _ hne
  | close => exact untouched_close _ _
  | cancel => exact untouched_recordEnd .dropped hne
  | releaseSource => exact untouched_recordEnd .dropped hne

end Record

/-- What a transaction has become stays, once it has ended and while only other peers act. -/
theorem Inv.txs_of_run {t : ℕ} (bs : List (Act ι)) :
    ∀ {s s' : State ι}, s.Inv → t < s.nextTx → Machine.Within State.step Undisturbed s bs →
      Machine.run State.step s bs = some s' →
      ((s.txs t).ending ≠ .running ∨ ∀ b ∈ bs, b.peer ≠ (s.txs t).peer) → s'.txs t = s.txs t := by
  induction bs with
  | nil =>
    intro s s' _ _ _ hrun _
    exact Option.some.inj hrun ▸ rfl
  | cons b bs ih =>
    intro s s' h ht hin hrun hcond
    obtain ⟨u, hu, hrun⟩ := Machine.run_cons.1 hrun
    obtain ⟨hc, hin⟩ := (Machine.within_cons hu).1 hin
    have hne : (s.peers b.peer).trans ≠ some t := by
      intro htrans
      obtain ⟨q, hq, -⟩ := (h.peers b.peer).inTrans htrans
      rcases hcond with hend | hothers
      · exact hend hq.running
      · exact hothers b List.mem_cons_self hq.peer.symm
    obtain ⟨htx, hnext⟩ := untouched_of_step ht hne hu
    rw [← htx]
    refine ih (h.step hc hu) (Nat.lt_of_lt_of_le ht hnext) hin hrun ?_
    rw [htx]
    exact hcond.imp_right fun hothers b' hb' ↦ hothers b' (List.mem_cons_of_mem b hb')

/-- The invariant holds in every state that an undisturbed run from an invariant state reaches. -/
theorem Inv.run {as : List (Act ι)} (h : s.Inv) (hin : Machine.Within State.step Undisturbed s as)
    (hrun : Machine.run State.step s as = some s') : s'.Inv :=
  Machine.invariant_of_within (fun _ _ _ h hc hstep ↦ Inv.step h hc hstep) as h hin hrun

/-- Two peers: one commits two messages, and meanwhile the other one sends a message to the same
queue. -/
def commitTwo : List (Act Bool) :=
  [.switchFrom true, .switchFrom false, .startTrans true ['a'] true,
    .enqueue true ['a'] [⟨1, []⟩, ⟨2, []⟩], .enqueue false ['a'] [⟨3, []⟩],
    .endTrans true false true, .batchEnqueue true true 0, .endJob true true, .store false (some 3)]

/-- Afterwards, the other one closes the queue. -/
def thenClose : List (Act Bool) := [.close false ['a'] .QUEUE_OK]

theorem commitTwo_enabled : (Machine.run State.step (initial fun _ ↦ []) commitTwo).isSome := by
  decide

theorem thenClose_enabled : (Machine.run State.step
    ((Machine.run State.step (initial fun _ ↦ []) commitTwo).get commitTwo_enabled)
      thenClose).isSome := by
  decide

/-- A client in a transaction on `a` closes `b`, and goes on. -/
def closeOther : List (Act Bool) :=
  [.switchFrom true, .startTrans true ['a'] true, .enqueue true ['a'] [⟨1, []⟩],
    .close true ['b'] .QUEUE_OK, .enqueue true ['a'] [⟨2, []⟩], .store true (some 1),
    .endTrans true false true]

theorem closeOther_enabled : (Machine.run State.step (initial fun _ ↦ []) closeOther).isSome := by
  decide

end State

end SocketPro.Queue
