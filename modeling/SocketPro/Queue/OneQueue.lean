import SocketPro.Queue.Registry

/-!
# One queue object for each key

`one_queue_per_key`: at most one open `CMyQueue` exists for a key, every request works on the one
that the map has under its key, and `Close` reports `QUEUE_OK` only when nobody holds an open object
of the key — in every run, of any peers, in which

* an object is made for a key (by a request whose `Find` has returned null, or by `StartTrans`) only
  while the map has none for it, and no other peer has opened one that is not registered yet;
* a key is closed only while no peer has opened an object for it that is not registered yet;
* in a transaction, messages are sent under the key of that.

**Between `Find` and the registration no lock is held.** `two_queues` has two peers that both find
nothing and both open an object, the second of which replaces the first in the map.

The invariant (`Inv`) gives each object that is referred to one of two places: it is registered
under its key, or it is the only one on the way there.
-/

namespace SocketPro.Queue.Registry.Server

variable {ι : Type} {s : Server ι}

/-! ### The property and the condition -/

/-- **One queue per key.** -/
structure OneQueue (s : Server ι) : Prop where
  /-- No two open objects of one key exist. -/
  one : ∀ q q', s.Exists q → s.Exists q' → (s.heap q).closed = false →
    (s.heap q').closed = false → (s.heap q).key = (s.heap q').key → q = q'
  /-- Requests work on registered objects, and what is closed is held by nobody. -/
  sound : ∀ e ∈ s.log, e.Sound

/-- No peer has opened an object for the key that is not registered yet. -/
def Unopened (s : Server ι) (key : Key) : Prop := ∀ j ∈ s.clients, (s.peers j).pc.opening ≠ some key

instance (key : Key) : Decidable (s.Unopened key) := inferInstanceAs (Decidable (∀ _ ∈ _, _))

/-- The condition on a step. -/
def Orderly (s : Server ι) : Action ι → Prop
  | .make i started =>
    match (s.peers i).pc with
    | .missing key _ => started = true → s.m_mapKeyQueue key = none ∧ s.Unopened key
    | _ => True
  | .StartTrans i key started =>
    s.Free i → s.m_mapKeyQueue (pretreat key) = none → started = true → s.Unopened (pretreat key)
  | .Close _ key _ => s.Unopened (pretreat key)
  | .Enqueue i key _ => ∀ q ∈ (s.peers i).m_qTrans, (s.heap q).key = pretreat key
  | .EnqueueBatch i key _ => ∀ q ∈ (s.peers i).m_qTrans, (s.heap q).key = pretreat key
  | _ => True

instance (a : Action ι) : Decidable (s.Orderly a) := by
  unfold Orderly
  cases a with
  | make i started =>
    dsimp only
    cases (s.peers i).pc <;> infer_instance
  | _ => infer_instance

/-! ### The invariant -/

/-- The object is what the map has under its key. -/
def Registered (s : Server ι) (q : ℕ) : Prop := s.m_mapKeyQueue (s.heap q).key = some q

/-- What the program counter says of the object that the running request holds. -/
def PcOk (s : Server ι) : Pc → Prop
  | .idle => True
  | .missing _ _ => True
  | .made key q _ => q < s.fresh ∧ s.heap q = ⟨key, false⟩ ∧ s.m_mapKeyQueue key = none
  | .opened key q _ => q < s.fresh ∧ s.heap q = ⟨key, false⟩ ∧ s.m_mapKeyQueue key = none
  | .working key q _ _ => s.m_mapKeyQueue key = some q

structure PeerOk (s : Server ι) (p : Peer) : Prop where
  trans : ∀ q, p.m_qTrans = some q → s.Registered q
  pc : s.PcOk p.pc

structure Inv (s : Server ι) : Prop where
  map : ∀ key q, s.m_mapKeyQueue key = some q → q < s.fresh ∧ s.heap q = ⟨key, false⟩
  outside : ∀ i ∉ s.clients, (s.peers i).pc = .idle ∧ (s.peers i).m_qTrans = none
  peers : ∀ i, s.PeerOk (s.peers i)
  /-- Two peers never have an object of one key on the way to the map. -/
  opening : ∀ i j key, (s.peers i).pc.opening = some key → (s.peers j).pc.opening = some key → i = j
  log : ∀ e ∈ s.log, e.Sound

theorem Inv.registered (h : s.Inv) {key : Key} {q : ℕ} (hmap : s.m_mapKeyQueue key = some q) :
    s.Registered q := by
  rw [Registered, (h.map key q hmap).2]
  exact hmap

theorem Inv.unopened (h : s.Inv) {key : Key} (hkey : s.Unopened key) (j : ι) :
    (s.peers j).pc.opening ≠ some key := by
  by_cases hj : j ∈ s.clients
  · exact hkey j hj
  · rw [(h.outside j hj).1]
    exact nofun

/-- The object is opened by the peer, and not registered yet. -/
def OnTheWay (s : Server ι) (j : ι) (q : ℕ) : Prop :=
  (s.peers j).pc.object = some q ∧ (s.peers j).pc.opening = some (s.heap q).key ∧
    s.m_mapKeyQueue (s.heap q).key = none

/-- **Where the objects are** that a peer refers to. -/
theorem Inv.held_cases (h : s.Inv) {j : ι} {q : ℕ} (hq : q ∈ (s.peers j).held) :
    s.Registered q ∨ s.OnTheWay j q := by
  rcases List.mem_append.1 hq with hq | hq
  · exact .inl ((h.peers j).trans q (Option.mem_toList.1 hq))
  · have hobject : (s.peers j).pc.object = some q := Option.mem_toList.1 hq
    have hpc := (h.peers j).pc
    rw [OnTheWay, hobject]
    generalize (s.peers j).pc = pc at hpc hobject ⊢
    cases pc with
    | idle => cases hobject
    | missing key work => cases hobject
    | made key q' work =>
      obtain rfl : q' = q := Option.some.inj hobject
      obtain ⟨-, hheap, hnone⟩ := hpc
      rw [hheap]
      exact .inr ⟨rfl, rfl, hnone⟩
    | opened key q' work =>
      obtain rfl : q' = q := Option.some.inj hobject
      obtain ⟨-, hheap, hnone⟩ := hpc
      rw [hheap]
      exact .inr ⟨rfl, rfl, hnone⟩
    | working key q' work rets =>
      obtain rfl : q' = q := Option.some.inj hobject
      exact .inl (h.registered hpc)

/-- **The invariant says what is claimed.** -/
theorem Inv.oneQueue (h : s.Inv) : s.OneQueue := by
  have place : ∀ q, s.Exists q → s.Registered q ∨ ∃ j, s.OnTheWay j q := by
    rintro q (⟨key, hmap⟩ | ⟨j, -, hq⟩)
    · exact .inl (h.registered hmap)
    · exact (h.held_cases hq).imp id fun hway ↦ ⟨j, hway⟩
  refine ⟨fun q q' hq hq' _ _ hkey ↦ ?_, h.log⟩
  rcases place q hq with hreg | ⟨j, hobject, hopen, hnone⟩
  · rcases place q' hq' with hreg' | ⟨-, -, -, hnone'⟩
    · rw [Registered, ← hkey, hreg] at hreg'
      exact Option.some.inj hreg'
    · rw [← hkey, hreg] at hnone'
      cases hnone'
  · rcases place q' hq' with hreg' | ⟨j', hobject', hopen', -⟩
    · rw [Registered, ← hkey, hnone] at hreg'
      cases hreg'
    · obtain rfl := h.opening j j' _ hopen (hkey ▸ hopen')
      exact Option.some.inj (hobject.symm.trans hobject')

/-- A key that is neither in the map nor on the way there is held by nobody. -/
theorem Inv.holders_eq_nil (h : s.Inv) {key : Key} (hnone : s.m_mapKeyQueue key = none)
    (hkey : s.Unopened key) : s.holders key = [] := by
  refine List.filter_eq_nil_iff.2 fun j hj hany ↦ ?_
  obtain ⟨q, hq, hopen⟩ := List.any_eq_true.1 hany
  obtain ⟨-, rfl⟩ : (s.heap q).closed = false ∧ (s.heap q).key = key := by simpa using hopen
  rcases h.held_cases hq with hreg | ⟨-, hopening, -⟩
  · exact nomatch hnone.symm.trans hreg
  · exact hkey j hj hopening

/-! ### The changes a request is made of -/

section Changes

variable [DecidableEq ι] {i : ι}

/-- A peer changes that neither begins to open an object nor is a stranger. -/
theorem Inv.setPeer {p : Peer} (h : s.Inv) (hp : s.PeerOk p)
    (hopen : ∀ key, p.pc.opening = some key → (s.peers i).pc.opening = some key)
    (hin : i ∈ s.clients ∨ p.pc = .idle ∧ p.m_qTrans = none) : (s.setPeer i p).Inv := by
  have hpeers : ∀ j, (s.setPeer i p).peers j = if j = i then p else s.peers j :=
    fun j ↦ Function.update_apply _ _ _ _
  have hopening : ∀ j key, ((s.setPeer i p).peers j).pc.opening = some key →
      (s.peers j).pc.opening = some key := by
    intro j key hj
    rw [hpeers] at hj
    split at hj
    · next heq => exact heq ▸ hopen key hj
    · exact hj
  refine ⟨h.map, fun j hj ↦ ?_, fun j ↦ ?_, fun j k key hj hk ↦ ?_, h.log⟩
  · rw [hpeers]
    split
    · next heq => exact hin.resolve_left (heq ▸ hj)
    · exact h.outside j hj
  · rw [hpeers]
    split
    · exact ⟨hp.trans, hp.pc⟩
    · exact ⟨(h.peers j).trans, (h.peers j).pc⟩
  · exact h.opening j k key (hopening j key hj) (hopening k key hk)

theorem Inv.setPc {pc : Pc} (h : s.Inv) (hpc : s.PcOk pc)
    (hopen : ∀ key, pc.opening = some key → (s.peers i).pc.opening = some key)
    (hin : i ∈ s.clients ∨ pc = .idle ∧ (s.peers i).m_qTrans = none) : (s.setPc i pc).Inv :=
  h.setPeer ⟨(h.peers i).trans, hpc⟩ hopen hin

/-- A request is answered. -/
theorem Inv.answer {r : Reply} (h : s.Inv) : (s.answer i r).Inv := by
  refine h.setPeer ⟨(h.peers i).trans, trivial⟩ nofun ?_
  by_cases hi : i ∈ s.clients
  · exact .inl hi
  · exact .inr ⟨rfl, (h.outside i hi).2⟩

/-- A transaction is given up. -/
theorem Inv.unlock {r : Reply} (h : s.Inv) :
    (s.setPeer i { (s.peers i).unlock with pc := .idle, reply := r }).Inv :=
  h.setPeer ⟨nofun, trivial⟩ nofun (.inr ⟨rfl, rfl⟩)

theorem Inv.unlock_of_ready (h : s.Inv) (hi : s.Ready i) :
    (s.setPeer i (s.peers i).unlock).Inv := by
  have hunlock := h.unlock (i := i) (r := (s.peers i).reply)
  rwa [← hi.2] at hunlock

omit [DecidableEq ι] in
theorem Inv.mem_clients (h : s.Inv) (hpc : (s.peers i).pc ≠ .idle) : i ∈ s.clients := by
  by_contra hi
  exact hpc (h.outside i hi).1

omit [DecidableEq ι] in
theorem Inv.worked {key : Key} {q : ℕ} (h : s.Inv) (hmap : s.m_mapKeyQueue key = some q) :
    (s.worked i key q).Inv := by
  refine ⟨h.map, h.outside, fun j ↦ ⟨(h.peers j).trans, (h.peers j).pc⟩, h.opening, ?_⟩
  intro e he
  rcases List.mem_append.1 he with he | he
  · exact h.log e he
  · obtain rfl := List.mem_singleton.1 he
    exact hmap

omit [DecidableEq ι] in
/-- A new object changes nothing for the others. -/
theorem Inv.make {key : Key} (h : s.Inv) : (s.make key).Inv := by
  have hheap : ∀ q < s.fresh, (s.make key).heap q = s.heap q := fun q hq ↦
    Function.update_of_ne (Nat.ne_of_lt hq) _ _
  refine ⟨fun k q hq ↦ ?_, h.outside, fun j ↦ ⟨fun q hq ↦ ?_, ?_⟩, h.opening, h.log⟩
  · obtain ⟨hlt, heq⟩ := h.map k q hq
    exact ⟨Nat.lt_succ_of_lt hlt, (hheap q hlt).trans heq⟩
  · have hreg := (h.peers j).trans q hq
    rw [Registered, hheap q (h.map _ q hreg).1]
    exact hreg
  · have hpc := (h.peers j).pc
    show PcOk _ (s.peers j).pc
    generalize (s.peers j).pc = pc at hpc ⊢
    cases pc with
    | made k q work =>
      exact ⟨Nat.lt_succ_of_lt hpc.1, (hheap q hpc.1).trans hpc.2.1, hpc.2.2⟩
    | opened k q work =>
      exact ⟨Nat.lt_succ_of_lt hpc.1, (hheap q hpc.1).trans hpc.2.1, hpc.2.2⟩
    | _ => exact hpc

omit [DecidableEq ι] in
/-- The registration of an open object, under a key that no peer is opening. -/
theorem Inv.register {key : Key} {q : ℕ} (h : s.Inv) (hlt : q < s.fresh)
    (hheap : s.heap q = ⟨key, false⟩) (hnone : s.m_mapKeyQueue key = none)
    (hkey : ∀ j, (s.peers j).pc.opening ≠ some key) : (s.register key q).Inv := by
  have hmap : ∀ k, (s.register key q).m_mapKeyQueue k =
      if k = key then some q else s.m_mapKeyQueue k := fun k ↦ Function.update_apply _ _ _ _
  have hkeep : ∀ k q', s.m_mapKeyQueue k = some q' →
      (s.register key q).m_mapKeyQueue k = some q' := by
    intro k q' hk
    rw [hmap, if_neg, hk]
    rintro rfl
    exact nomatch hnone.symm.trans hk
  refine ⟨fun k q' hk ↦ ?_, h.outside, fun j ↦ ⟨fun q' hq' ↦ ?_, ?_⟩, h.opening, h.log⟩
  · rw [hmap] at hk
    split at hk
    · next heq =>
      obtain rfl := Option.some.inj hk
      exact ⟨hlt, heq ▸ hheap⟩
    · exact h.map k q' hk
  · exact hkeep _ q' ((h.peers j).trans q' hq')
  · have hpc := (h.peers j).pc
    have hj := hkey j
    show PcOk _ (s.peers j).pc
    generalize (s.peers j).pc = pc at hpc hj ⊢
    cases pc with
    | idle => exact trivial
    | missing k work => exact trivial
    | made k q' work =>
      refine ⟨hpc.1, hpc.2.1, ?_⟩
      rw [hmap, if_neg fun heq ↦ hj (congrArg some heq)]
      exact hpc.2.2
    | opened k q' work =>
      refine ⟨hpc.1, hpc.2.1, ?_⟩
      rw [hmap, if_neg fun heq ↦ hj (congrArg some heq)]
      exact hpc.2.2
    | working k q' work rets => exact hkeep k q' hpc

end Changes

/-! ### Requests -/

section Requests

variable [DecidableEq ι] {i : ι}

theorem proceed_setPc (s : Server ι) {key : Key} {q : ℕ} {work : Work} {pc : Pc} :
    (s.setPc i pc).proceed i key q work = s.proceed i key q work := by
  cases work <;> simp [Server.proceed, Server.setPc, Server.setPeer, Server.worked]

/-- A request goes on with a registered object. -/
theorem Inv.proceed {key : Key} {q : ℕ} {work : Work} (h : s.Inv)
    (hmap : s.m_mapKeyQueue key = some q) (hi : i ∈ s.clients) : (s.proceed i key q work).Inv := by
  have hwork : ∀ work, (s.setPc i (.working key q work [])).Inv := fun work ↦
    h.setPc hmap nofun (.inl hi)
  have hbatch : ∀ buffer msgs, ((s.worked i key q).setPeer i { s.peers i with
      m_bufferBatch := some (buffer ++ msgs)
      m_count := (s.peers i).m_count + msgs.length
      pc := .idle
      reply := .index ((s.peers i).m_count + msgs.length).toUInt64 }).Inv := fun _ _ ↦
    (h.worked hmap).setPeer ⟨(h.peers i).trans, trivial⟩ nofun (.inl hi)
  cases work with
  | Enqueue msg =>
    simp only [Server.proceed]
    split
    · exact hbatch _ [msg]
    · exact hwork _
  | EnqueueBatch msgs =>
    simp only [Server.proceed]
    split
    · exact hbatch _ msgs
    · exact hwork _
  | Dequeue timeout => exact hwork _
  | Flush option => exact hwork _
  | commit msgs => exact hwork _

theorem Inv.lookUp {key : Key} {work : Work} (h : s.Inv) (hi : i ∈ s.clients) :
    (s.lookUp i key work).Inv := by
  rw [Server.lookUp]
  split
  · next q hmap => exact h.proceed hmap hi
  · exact h.setPc trivial nofun (.inl hi)

/-- In a transaction the object is that of the transaction. -/
theorem Inv.enqueue {key : Key} {work : Work} (h : s.Inv) (hi : i ∈ s.clients)
    (hkey : ∀ q ∈ (s.peers i).m_qTrans, (s.heap q).key = pretreat key) :
    (s.enqueue i key work).Inv := by
  rw [Server.enqueue]
  split
  · next q hq =>
    refine h.proceed ?_ hi
    rw [← hkey q hq]
    exact (h.peers i).trans q hq
  · exact h.lookUp hi

theorem Inv.Flush {key : Key} {option : ℤ} (h : s.Inv) (hi : i ∈ s.clients) :
    (s.Flush i key option).Inv := by
  rw [Server.Flush]
  split
  · next q hmap => exact h.proceed hmap hi
  · exact h.answer

theorem Inv.beginTrans {q : ℕ} (h : s.Inv) (hi : i ∈ s.clients) (hreg : s.Registered q) :
    (s.beginTrans i q).Inv :=
  h.setPeer ⟨fun _ hq' ↦ Option.some.inj hq' ▸ hreg, trivial⟩ nofun (.inl hi)

theorem Inv.StartTrans {key : Key} {started : Bool} (h : s.Inv) (hi : i ∈ s.clients)
    (hkey : s.Orderly (.StartTrans i key started)) : (s.StartTrans i key started).Inv := by
  rw [Server.StartTrans]
  split
  · next hfree =>
    split
    · next q hmap => exact h.beginTrans hi (h.registered hmap)
    · next hnone =>
      split
      · next hstarted =>
        have hmake : (s.make (pretreat key)).heap s.fresh = ⟨pretreat key, false⟩ :=
          Function.update_self _ _ _
        have hreg : ((s.make (pretreat key)).register (pretreat key) s.fresh).Inv :=
          h.make.register (Nat.lt_succ_self _) hmake hnone
            (h.unopened (hkey hfree hnone hstarted))
        exact hreg.beginTrans hi (hreg.registered (Function.update_self _ _ _))
      · exact h.answer
  · exact h.answer

theorem Inv.EndTrans {rollback : Bool} (h : s.Inv) (hi : s.Ready i) :
    (s.EndTrans i rollback).Inv := by
  rw [Server.EndTrans]
  split
  · next buffer q _ hq =>
    split
    · have hunlock := h.unlock (i := i) (r := .errCode .QUEUE_OK)
      rwa [← hi.2] at hunlock
    · exact h.setPc ((h.peers i).trans q hq) nofun (.inl hi.1)
  · exact h.answer

theorem Inv.closeOk {key : Key} (h : s.Inv) (hnone : s.m_mapKeyQueue key = none)
    (hkey : s.Unopened key) : (s.closeOk i key).Inv := by
  refine Inv.answer ⟨h.map, h.outside, fun j ↦ ⟨(h.peers j).trans, (h.peers j).pc⟩, h.opening, ?_⟩
  intro e he
  rcases List.mem_append.1 he with he | he
  · exact h.log e he
  · obtain rfl := List.mem_singleton.1 he
    exact h.holders_eq_nil hnone hkey

omit [DecidableEq ι] in
theorem Inv.not_held (h : s.Inv) {q : ℕ} (hq : s.unshared q = true) (j : ι) :
    q ∉ (s.peers j).held := by
  by_cases hj : j ∈ s.clients
  · exact of_decide_eq_true (List.all_eq_true.1 hq j hj)
  · obtain ⟨hpc, htrans⟩ := h.outside j hj
    simp [Peer.held, hpc, htrans, Pc.object]

omit [DecidableEq ι] in
/-- The object that only the map refers to is closed and erased. -/
theorem Inv.erase {key : Key} {q : ℕ} (h : s.Inv) (hmap : s.m_mapKeyQueue key = some q)
    (hq : s.unshared q = true) :
    Inv { s with
      heap := Function.update s.heap q { s.heap q with closed := true }
      m_mapKeyQueue := Function.update s.m_mapKeyQueue key none } := by
  obtain ⟨-, hheap⟩ := h.map key q hmap
  -- whatever is registered under another key, or held, is another object
  have hne : ∀ k q', s.m_mapKeyQueue k = some q' → q' ≠ q → k ≠ key := by
    rintro k q' hk hq' rfl
    exact hq' (Option.some.inj (hk.symm.trans hmap))
  have hkeep : ∀ k q', s.m_mapKeyQueue k = some q' → q' ≠ q →
      Function.update s.m_mapKeyQueue key none k = some q' := fun k q' hk hq' ↦
    (Function.update_of_ne (hne k q' hk hq') _ _).trans hk
  have hnone : ∀ k, s.m_mapKeyQueue k = none → Function.update s.m_mapKeyQueue key none k = none := by
    intro k hk
    rw [Function.update_apply]
    split
    · rfl
    · exact hk
  refine ⟨fun k q' hk ↦ ?_, h.outside, fun j ↦ ⟨fun q' hq' ↦ ?_, ?_⟩, h.opening, h.log⟩
  · by_cases heq : k = key
    · subst heq
      simp at hk
    · obtain ⟨hlt, hk'⟩ := h.map k q' ((Function.update_of_ne heq _ _).symm.trans hk)
      refine ⟨hlt, (Function.update_of_ne ?_ _ _).trans hk'⟩
      rintro rfl
      rw [hheap] at hk'
      exact heq (congrArg CMyQueue.key hk').symm
  · have hq'' : q' ≠ q := by
      rintro rfl
      exact h.not_held hq j (List.mem_append_left _ (Option.mem_toList.2 hq'))
    show Function.update s.m_mapKeyQueue key none (Function.update s.heap q _ q').key = some q'
    rw [Function.update_of_ne hq'']
    exact hkeep _ q' ((h.peers j).trans q' hq') hq''
  · have hpc := (h.peers j).pc
    have hother : ∀ q', (s.peers j).pc.object = some q' → q' ≠ q := by
      rintro q' hobject rfl
      exact h.not_held hq j (List.mem_append_right _ (Option.mem_toList.2 hobject))
    show PcOk _ (s.peers j).pc
    generalize (s.peers j).pc = pc at hpc hother ⊢
    cases pc with
    | idle => exact trivial
    | missing k work => exact trivial
    | made k q' work =>
      exact ⟨hpc.1, (Function.update_of_ne (hother q' rfl) _ _).trans hpc.2.1, hnone k hpc.2.2⟩
    | opened k q' work =>
      exact ⟨hpc.1, (Function.update_of_ne (hother q' rfl) _ _).trans hpc.2.1, hnone k hpc.2.2⟩
    | working k q' work rets => exact hkeep k q' hpc (hother q' rfl)

theorem Inv.Close {key : Key} {closed : ErrCode} (h : s.Inv) (hi : s.Ready i)
    (hkey : s.Unopened (pretreat key)) : (s.Close i key closed).Inv := by
  have hset := h.unlock_of_ready hi
  have hkey' : (s.setPeer i (s.peers i).unlock).Unopened (pretreat key) := by
    intro j hj
    show (Function.update s.peers i (s.peers i).unlock j).pc.opening ≠ _
    rw [Function.update_apply]
    split
    · next heq => exact heq ▸ hkey i hi.1
    · exact hkey j hj
  simp only [Server.Close]
  split
  · next hnone => exact hset.closeOk hnone hkey'
  · next q hmap =>
    split
    · next hq =>
      split
      · exact (hset.erase hmap hq).closeOk (Function.update_self _ _ _) hkey'
      · exact hset.answer
    · exact hset.answer

theorem Inv.OnReleaseSource (h : s.Inv) (hi : s.Ready i) : (s.OnReleaseSource i).Inv := by
  have hset := h.unlock_of_ready hi
  have hself : (s.setPeer i (s.peers i).unlock).peers i = (s.peers i).unlock :=
    Function.update_self _ _ _
  have houtside : ∀ j ∉ s.clients.erase i,
      ((s.setPeer i (s.peers i).unlock).peers j).pc = .idle ∧
        ((s.setPeer i (s.peers i).unlock).peers j).m_qTrans = none := by
    intro j hj
    by_cases hji : j = i
    · subst hji
      rw [hself]
      exact ⟨hi.2, rfl⟩
    · exact hset.outside j fun hmem ↦ hj ((List.mem_erase_of_ne hji).2 hmem)
  refine ⟨fun k q hk ↦ ?_, houtside, fun j ↦ ?_, hset.opening, hset.log⟩
  · simp only [Server.OnReleaseSource] at hk
    split at hk
    · cases hk
    · exact hset.map k q hk
  · by_cases hempty : (s.clients.erase i).isEmpty
    · obtain ⟨hpc, htrans⟩ := houtside j (by simp [List.isEmpty_iff.1 hempty])
      refine ⟨fun q hq ↦ ?_, ?_⟩
      · rw [show ((s.OnReleaseSource i).peers j).m_qTrans = none from htrans] at hq
        cases hq
      · rw [show ((s.OnReleaseSource i).peers j).pc = .idle from hpc]
        exact trivial
    · have heq : s.OnReleaseSource i =
          { s.setPeer i (s.peers i).unlock with clients := s.clients.erase i } := by
        rw [Server.OnReleaseSource]
        exact congrArg (fun m ↦ { s.setPeer i (s.peers i).unlock with
          clients := s.clients.erase i, m_mapKeyQueue := m }) (if_neg hempty)
      rw [heq]
      exact ⟨(hset.peers j).trans, (hset.peers j).pc⟩

theorem Inv.call {key : Key} {q : ℕ} {work : Work} {rets : List UInt64} {ret : UInt64} (h : s.Inv)
    (hpc : (s.peers i).pc = .working key q work rets) : (s.call i key q work rets ret).Inv := by
  have hmap : s.m_mapKeyQueue key = some q := by
    have hok := (h.peers i).pc
    rwa [hpc] at hok
  have hi : i ∈ s.clients := h.mem_clients (hpc ▸ Pc.noConfusion)
  rw [Server.call]
  split
  · exact (h.worked hmap).setPc hmap nofun (.inl hi)
  · split
    · exact h.unlock
    · exact h.answer

/-- A new object for a key that nobody else opens. -/
theorem Inv.makeStep {key : Key} {work : Work} (h : s.Inv)
    (hpc : (s.peers i).pc = .missing key work) (hnone : s.m_mapKeyQueue key = none)
    (hkey : s.Unopened key) : ((s.make key).setPc i (.made key s.fresh work)).Inv := by
  have hmake : (s.make key).Inv := h.make
  have hpeers : ∀ j, ((s.make key).setPc i (.made key s.fresh work)).peers j =
      if j = i then { s.peers i with pc := .made key s.fresh work } else s.peers j :=
    fun j ↦ Function.update_apply _ _ _ _
  have hi : i ∈ s.clients := h.mem_clients (hpc ▸ Pc.noConfusion)
  refine ⟨hmake.map, fun j hj ↦ ?_, fun j ↦ ?_, fun j k key' hj hk ↦ ?_, hmake.log⟩
  · rw [hpeers, if_neg (by rintro rfl; exact hj hi)]
    exact h.outside j hj
  · rw [hpeers]
    split
    · exact ⟨(hmake.peers i).trans, Nat.lt_succ_self _, Function.update_self _ _ _, hnone⟩
    · exact ⟨(hmake.peers j).trans, (hmake.peers j).pc⟩
  · rw [hpeers] at hj hk
    split at hj <;> split at hk
    · next hji hki => exact hji.trans hki.symm
    · obtain rfl := Option.some.inj hj
      exact absurd hk (h.unopened hkey k)
    · obtain rfl := Option.some.inj hk
      exact absurd hj (h.unopened hkey j)
    · exact h.opening j k key' hj hk

/-- The section that registers an object, and what follows. -/
theorem Inv.registerStep {key : Key} {q : ℕ} {work : Work} (h : s.Inv)
    (hpc : (s.peers i).pc = .opened key q work) : ((s.register key q).proceed i key q work).Inv := by
  have hi : i ∈ s.clients := h.mem_clients (hpc ▸ Pc.noConfusion)
  obtain ⟨hlt, hheap, hnone⟩ : s.PcOk (.opened key q work) := hpc ▸ (h.peers i).pc
  -- without its own program counter, nobody opens the key
  have hidle : (s.setPc i .idle).Inv := h.setPc trivial nofun (.inl hi)
  have hkey : ∀ j, ((s.setPc i .idle).peers j).pc.opening ≠ some key := by
    intro j hj
    rw [show (s.setPc i .idle).peers j = Function.update s.peers i _ j from rfl,
      Function.update_apply] at hj
    split at hj
    · cases hj
    · next hne => exact hne (h.opening j i key hj (hpc ▸ rfl))
  have hreg : (((s.setPc i .idle).register key q).proceed i key q work).Inv :=
    (hidle.register hlt hheap hnone hkey).proceed (Function.update_self _ _ _) hi
  have heq : ((s.setPc i .idle).register key q).proceed i key q work =
      (s.register key q).proceed i key q work := proceed_setPc (s.register key q)
  exact heq ▸ hreg

/-- **One step.** -/
theorem Inv.step {s' : Server ι} {a : Action ι} (h : s.Inv) (hc : s.Orderly a)
    (hstep : s.step a = some s') : s'.Inv := by
  -- a step between two requests
  have ready : ∀ {i t}, s.whenReady i t = some s' → s.Ready i ∧ t = s' := fun ht ↦
    (Option.ite_none_right_eq_some.1 ht).imp_right Option.some.inj
  cases a with
  | switchFrom i =>
    obtain ⟨-, hstep⟩ := Option.ite_none_left_eq_some.1 hstep
    obtain rfl := Option.some.inj hstep
    have hnew : (s.setPeer i .new).Inv := h.setPeer ⟨nofun, trivial⟩ nofun (.inr ⟨rfl, rfl⟩)
    refine ⟨hnew.map, fun j hj ↦ hnew.outside j fun hmem ↦ hj (List.mem_cons_of_mem _ hmem), ?_,
      hnew.opening, hnew.log⟩
    exact fun j ↦ ⟨(hnew.peers j).trans, (hnew.peers j).pc⟩
  | StartTrans i key started =>
    obtain ⟨hi, rfl⟩ := ready hstep
    exact h.StartTrans hi.1 hc
  | Enqueue i key msg =>
    obtain ⟨hi, rfl⟩ := ready hstep
    exact h.enqueue hi.1 hc
  | EnqueueBatch i key msgs =>
    obtain ⟨hi, rfl⟩ := ready hstep
    exact h.enqueue hi.1 hc
  | Dequeue i key timeout =>
    obtain ⟨hi, rfl⟩ := ready hstep
    exact h.lookUp hi.1
  | Flush i key option =>
    obtain ⟨hi, rfl⟩ := ready hstep
    exact h.Flush hi.1
  | EndTrans i rollback =>
    obtain ⟨hi, rfl⟩ := ready hstep
    exact h.EndTrans hi
  | Close i key closed =>
    obtain ⟨hi, rfl⟩ := ready hstep
    exact h.Close hi hc
  | make i started =>
    simp only [Server.step, Server.Orderly] at hstep hc
    split at hstep
    · next key work hpc =>
      rw [hpc] at hc
      split at hstep
      · next hstarted =>
        obtain rfl := Option.some.inj hstep
        exact h.makeStep hpc (hc hstarted).1 (hc hstarted).2
      · exact Option.some.inj hstep ▸ h.answer
    · cases hstep
  | getHandle i available =>
    simp only [Server.step] at hstep
    split at hstep
    · next key q work hpc =>
      have hok : s.PcOk (.made key q work) := hpc ▸ (h.peers i).pc
      split at hstep
      · obtain rfl := Option.some.inj hstep
        exact h.setPc hok (fun k hk ↦ hpc ▸ hk) (.inl (h.mem_clients (hpc ▸ Pc.noConfusion)))
      · exact Option.some.inj hstep ▸ h.answer
    · cases hstep
  | register i =>
    simp only [Server.step] at hstep
    split at hstep
    · next key q work hpc => exact Option.some.inj hstep ▸ h.registerStep hpc
    · cases hstep
  | call i ret =>
    simp only [Server.step] at hstep
    split at hstep
    · next key q work rets hpc => exact Option.some.inj hstep ▸ h.call hpc
    · cases hstep
  | cancel i =>
    obtain ⟨hi, rfl⟩ := ready hstep
    exact h.unlock_of_ready hi
  | releaseSource i =>
    obtain ⟨hi, rfl⟩ := ready hstep
    exact h.OnReleaseSource hi

end Requests

/-! ### Runs -/

theorem inv_initial : (initial : Server ι).Inv where
  map _ _ hq := nomatch hq
  outside _ _ := ⟨rfl, rfl⟩
  peers _ := ⟨nofun, trivial⟩
  opening _ _ _ hi := nomatch hi
  log _ he := absurd he List.not_mem_nil

/-- **One queue per key**, in every run within the condition. -/
theorem one_queue_per_key [DecidableEq ι] (as : List (Action ι))
    (hin : Machine.Within step Orderly initial as) (hrun : Machine.run step initial as = some s) :
    s.OneQueue :=
  (Machine.invariant_of_within (fun _ _ _ h hc hstep ↦ Inv.step h hc hstep) as inv_initial hin
    hrun).oneQueue

/-- One peer makes the queue and works on it, another one finds it and closes it. -/
def oneAfterTheOther : List (Action Bool) :=
  [.switchFrom false, .switchFrom true, .Enqueue false ['a'] ⟨1, []⟩, .make false true,
    .getHandle false true, .register false, .call false 1, .call false 0, .Dequeue true ['a'] 0,
    .call true 1, .Close false ['a'] .QUEUE_OK]

theorem oneAfterTheOther_enabled : (Machine.run step initial oneAfterTheOther).isSome := by decide

theorem one_queue_per_key_oneAfterTheOther :
    ((Machine.run step initial oneAfterTheOther).get oneAfterTheOther_enabled).OneQueue :=
  one_queue_per_key oneAfterTheOther (by decide) (Option.some_get oneAfterTheOther_enabled).symm

/-- Both peers find nothing, and both open a queue: the second one takes the place of the first in
the map, which the first peer still works on. -/
def bothOpen : List (Action Bool) :=
  [.switchFrom false, .switchFrom true, .Enqueue false ['a'] ⟨1, []⟩, .Enqueue true ['a'] ⟨2, []⟩,
    .make false true, .getHandle false true, .register false, .make true true, .getHandle true true,
    .register true, .call false 1, .call true 1]

theorem bothOpen_enabled : (Machine.run step initial bothOpen).isSome := by decide

theorem two_queues : ¬ ∀ (as : List (Action Bool)) (s : Server Bool),
    Machine.run step initial as = some s → s.OneQueue := by
  intro h
  have hone := h bothOpen _ (Option.some_get bothOpen_enabled).symm
  refine absurd (hone.one 0 1 ?_ ?_ (by decide) (by decide) (by decide)) (by decide)
  · exact .inr ⟨false, by decide, by decide⟩
  · exact .inr ⟨true, by decide, by decide⟩

end SocketPro.Queue.Registry.Server
