import SocketPro.Client.CallbackPool

/-!
# Every callback ends once

The accounts of a handler shared by threads. A pair that is not on the recycle stack is either
`waiting`, its functions still to be called, or `spent`, one of them called; a step that moves a
pair from one place to another leaves both as they are, and every other step is one operation of the
ledger.

**What is lost.** The only step that makes a pair disappear is the end of `EraseBack`: its loop runs
from `total - count` to `count` instead of to `total`, so it passes less than it cuts off unless it
erases all of `m_vCallback`. The accounts carry the pairs lost so far, so they are kept by every
step of every run (`act_accounted`, `eraseNext_accounted`).

* `callbacks_end_once` — in a run whose calls of `EraseBack` erase all of `m_vCallback`, every pair
  is in one place, every request gives its pair back once and runs at most one of its functions;
* `pair_lost` — a call that erases a part of `m_vCallback` loses a pair;
* `endsOnce_iff` — the condition is exact.
-/

namespace SocketPro.Client

open Tenancy

variable {κ : Type*}

/-! ### The addresses in a queue -/

@[simp] theorem addrs_nil : addrs ([] : List (RRPair κ)) = 0 := rfl

@[simp] theorem addrs_cons (p : RRPair κ) (q : List (RRPair κ)) :
    addrs (p :: q) = p.addr ::ₘ addrs q := rfl

@[simp] theorem addrs_append (q r : List (RRPair κ)) : addrs (q ++ r) = addrs q + addrs r := by
  rw [addrs, ← Multiset.coe_add, Multiset.map_add]
  rfl

theorem coe_map_addr (q : List (RRPair κ)) :
    ((q.map RRPair.addr : List ℕ) : Multiset ℕ) = addrs q := rfl

/-- Overwriting moves no pair. -/
@[simp] theorem addrs_map_overwrite (p : RRPair κ) (q : List (RRPair κ)) :
    addrs (q.map (overwrite p)) = addrs q := by
  rw [addrs, ← Multiset.map_coe, Multiset.map_map]
  exact Multiset.map_congr rfl fun it _ ↦ overwrite_addr p it

theorem addrs_take_add_drop (n : ℕ) (q : List (RRPair κ)) :
    addrs (q.take n) + addrs (q.drop n) = addrs q := by
  rw [← addrs_append, List.take_append_drop]

/-- What `Remove` takes out of a queue is one entry with that address. -/
theorem addrs_removeFrom {q r : List (RRPair κ)} {p : RRPair κ}
    (h : CAsyncServiceHandler.removeFrom q p = some r) : addrs q = p.addr ::ₘ addrs r := by
  induction q generalizing r with
  | nil => exact absurd h (by simp [CAsyncServiceHandler.removeFrom])
  | cons it q ih =>
    rw [CAsyncServiceHandler.removeFrom] at h
    split at h
    · rename_i q' hq'
      obtain rfl := Option.some.inj h
      rw [addrs_cons, addrs_cons, ih hq', Multiset.cons_swap]
    · split at h
      · rename_i haddr
        obtain rfl := Option.some.inj h
        rw [addrs_cons, haddr]
      · exact absurd h (by simp)

theorem addrs_popById {reqId : UInt16} {q r : List (RRPair κ)} {p : RRPair κ}
    (h : CAsyncServiceHandler.popById reqId q = some (p, r)) : addrs q = p.addr ::ₘ addrs r := by
  induction q generalizing r with
  | nil => exact absurd h (by simp [CAsyncServiceHandler.popById])
  | cons it q ih =>
    rw [CAsyncServiceHandler.popById] at h
    split at h
    · obtain ⟨rfl, rfl⟩ := Prod.mk.inj (Option.some.inj h)
      rfl
    · obtain ⟨⟨p', q'⟩, hq', heq⟩ := Option.map_eq_some_iff.1 h
      obtain ⟨rfl, rfl⟩ := Prod.mk.inj heq
      rw [addrs_cons, addrs_cons, ih hq', Multiset.cons_swap]

/-- **The look-up.** It takes one entry out of `m_vCallback` or changes nothing. -/
theorem CAsyncServiceHandler.getAsyncResultHandler_cases (h : CAsyncServiceHandler κ)
    (random : Bool) (reqId : UInt16) :
    (∃ p q, h.getAsyncResultHandler random reqId = (some p, { h with vCallback := q }) ∧
      addrs h.vCallback = p.addr ::ₘ addrs q) ∨
    h.getAsyncResultHandler random reqId = (none, h) := by
  unfold CAsyncServiceHandler.getAsyncResultHandler
  split
  · split
    · rename_i p q hpop
      exact .inl ⟨p, q, rfl, addrs_popById hpop⟩
    · exact .inr rfl
  · split
    · rename_i p q hq
      split
      · exact .inl ⟨p, q, rfl, by rw [hq, addrs_cons]⟩
      · exact .inr rfl
    · exact .inr rfl

/-! ### Waiting and spent pairs -/

/-- The pairs of a call of `CleanCallbacks` whose functions are still to be called. -/
def Cleaning.waiting : Cleaning κ → Multiset ℕ
  | ⟨[], _⟩ => 0
  | ⟨q :: rest, it⟩ => addrs (q.drop it) + addrs rest.flatten

/-- The pairs of a call of `CleanCallbacks` whose functions were called. -/
def Cleaning.spent : Cleaning κ → Multiset ℕ
  | ⟨[], _⟩ => 0
  | ⟨q :: _, it⟩ => addrs (q.take it)

theorem Cleaning.waiting_add_spent (c : Cleaning κ) :
    c.waiting + c.spent = addrs c.queues.flatten := by
  obtain ⟨- | ⟨q, rest⟩, it⟩ := c
  · rfl
  · rw [Cleaning.waiting, Cleaning.spent, List.flatten_cons, addrs_append,
      ← addrs_take_add_drop it q, add_right_comm, add_comm (addrs (q.drop it))]

namespace SharedHandler

variable (s : SharedHandler κ)

/-- A call that starts with a queue has called none of its functions. -/
theorem Cleaning.start (queues : List (List (RRPair κ))) :
    (⟨queues, 0⟩ : Cleaning κ).waiting = addrs queues.flatten ∧
      (⟨queues, 0⟩ : Cleaning κ).spent = 0 := by
  rcases queues with - | ⟨q, rest⟩
  · exact ⟨rfl, rfl⟩
  · exact ⟨(addrs_append q rest.flatten).symm, rfl⟩

/-- The function of the next pair is called. -/
theorem Cleaning.next {q : List (RRPair κ)} {it : ℕ} {p : RRPair κ} (hp : q[it]? = some p)
    (rest : List (List (RRPair κ))) :
    (⟨q :: rest, it⟩ : Cleaning κ).waiting =
        p.addr ::ₘ (⟨q :: rest, it + 1⟩ : Cleaning κ).waiting ∧
      (⟨q :: rest, it + 1⟩ : Cleaning κ).spent =
        p.addr ::ₘ (⟨q :: rest, it⟩ : Cleaning κ).spent := by
  obtain ⟨hit, rfl⟩ := List.getElem?_eq_some_iff.1 hp
  constructor
  · rw [Cleaning.waiting, Cleaning.waiting, List.drop_eq_getElem_cons hit, addrs_cons,
      Multiset.cons_add]
  · rw [Cleaning.spent, Cleaning.spent, List.take_succ_eq_append_getElem hit, addrs_append,
      addrs_cons, addrs_nil, add_comm, Multiset.cons_add, zero_add]

/-- The functions of a whole queue were called. -/
theorem Cleaning.done {q : List (RRPair κ)} {it : ℕ} (hq : q[it]? = none)
    (rest : List (List (RRPair κ))) :
    (⟨q :: rest, it⟩ : Cleaning κ).waiting = addrs rest.flatten ∧
      (⟨q :: rest, it⟩ : Cleaning κ).spent = addrs q := by
  have hit := List.getElem?_eq_none_iff.1 hq
  rw [Cleaning.waiting, Cleaning.spent, List.drop_eq_nil_of_le hit, List.take_of_length_le hit]
  exact ⟨zero_add _, rfl⟩

/-- The pairs that are not on the stack and whose functions are still to be called. -/
def waiting : Multiset ℕ :=
  addrs s.queued + addrs s.handler.vBatching +
    (s.reading : Multiset (PendingSend κ)).map (fun c ↦ c.pair.addr) + addrs s.removed +
    (s.answering : Multiset (Delivery κ)).map (fun d ↦ d.pair.addr) +
    (s.cleanings : Multiset (Cleaning κ)).bind Cleaning.waiting

/-- The pairs that are not on the stack and whose functions were called. -/
def spent : Multiset ℕ :=
  (s.answered : Multiset (Delivery κ)).map (fun d ↦ d.pair.addr) +
    (s.cleanings : Multiset (Cleaning κ)).bind Cleaning.spent

theorem waiting_add_spent : s.waiting + s.spent = s.held := by
  have hclean : ((s.cleanings : Multiset (Cleaning κ)).bind fun c ↦ addrs c.queues.flatten) =
      (s.cleanings : Multiset (Cleaning κ)).bind Cleaning.waiting +
        (s.cleanings : Multiset (Cleaning κ)).bind Cleaning.spent := by
    rw [← Multiset.bind_add]
    exact Multiset.bind_congr fun c _ ↦ (Cleaning.waiting_add_spent c).symm
  rw [held, inHands, hclean, waiting, spent]
  abel

/-- **The accounts are right**, with the pairs that no place points to any more. -/
def Accounted (lost : Multiset ℕ) (s : SharedHandler κ) : Prop :=
  s.ledger.Sound s.handler.fresh (lost + s.waiting) s.spent s.handler.rrStack

variable {s} {t : SharedHandler κ} {lost : Multiset ℕ}

theorem initial_accounted (stack : ℕ) : (initial stack : SharedHandler κ).Accounted 0 := by
  refine ⟨?_, rfl, List.nodup_nil, by simp [initial]⟩
  exact zero_add _

/-! ### Each call keeps the accounts -/

/-- Overwriting what a pair points to leaves every pair where it is. -/
theorem waiting_mapPairs (p : RRPair κ) : (s.mapPairs (overwrite p)).waiting = s.waiting := by
  have hqueued : (s.mapPairs (overwrite p)).queued = s.queued.map (overwrite p) := by
    unfold queued mapPairs
    dsimp only
    split <;> simp [List.map_take, List.map_drop]
  have hclean (c : Cleaning κ) :
      Cleaning.waiting { c with queues := c.queues.map (List.map (overwrite p)) } = c.waiting := by
    obtain ⟨- | ⟨q, rest⟩, it⟩ := c
    · rfl
    · simp [Cleaning.waiting, ← List.map_drop, ← List.map_flatten]
  rw [waiting, hqueued, addrs_map_overwrite, waiting]
  simp only [mapPairs, addrs_map_overwrite, ← Multiset.map_coe, Multiset.map_map,
    Multiset.bind_map, Function.comp_def, overwrite_addr, hclean]

theorem spent_mapPairs (p : RRPair κ) : (s.mapPairs (overwrite p)).spent = s.spent := by
  have hclean (c : Cleaning κ) :
      Cleaning.spent { c with queues := c.queues.map (List.map (overwrite p)) } = c.spent := by
    obtain ⟨- | ⟨q, rest⟩, it⟩ := c
    · rfl
    · simp [Cleaning.spent, ← List.map_take]
  simp only [spent, mapPairs, ← Multiset.map_coe, Multiset.map_map, Multiset.bind_map,
    Function.comp_def, overwrite_addr, hclean]

/-- The pair for a new request is the front of the stack, or a new one. -/
theorem reuse_cases (h : CAsyncServiceHandler κ) (reqId : UInt16) (cb : CResultCb κ) :
    (∃ addr rest, h.rrStack = addr :: rest ∧
      h.reuse reqId cb = (⟨addr, reqId, cb⟩, { h with rrStack := rest })) ∨
    h.rrStack = [] ∧
      h.reuse reqId cb = (⟨h.fresh, reqId, cb⟩, { h with fresh := h.fresh + 1 }) := by
  unfold CAsyncServiceHandler.reuse
  split
  · rename_i addr rest hstack
    exact .inl ⟨addr, rest, hstack, rfl⟩
  · exact .inr ⟨‹_›, rfl⟩

theorem waiting_concat_reading (s : SharedHandler κ) (c : PendingSend κ)
    (L : Tenancy.Ledger (Notice κ)) :
    waiting { s with reading := s.reading ++ [c], ledger := L } = c.pair.addr ::ₘ s.waiting := by
  simp only [waiting, queued, coe_concat, Multiset.map_cons, Multiset.add_cons, Multiset.cons_add]

/-- The pair joins the calls that are reading, and whoever still points to it is overwritten. -/
theorem obtainPair_accounted {o : RRPair κ × CAsyncServiceHandler κ}
    (hC : o.2.vCallback = s.handler.vCallback) (hB : o.2.vBatching = s.handler.vBatching)
    (hL : (s.ledger.handOut o.1.addr).Sound o.2.fresh (o.1.addr ::ₘ (lost + s.waiting)) s.spent
      o.2.rrStack) (batching : Bool) : (s.obtainPair o batching).Accounted lost := by
  have hwait : waiting { s with handler := o.2 } = s.waiting := by
    simp only [waiting, queued, hC, hB]
  have hnew : (s.obtainPair o batching).waiting = o.1.addr ::ₘ s.waiting := by
    rw [obtainPair, waiting_concat_reading, waiting_mapPairs, hwait]
  have hspent : (s.obtainPair o batching).spent = s.spent :=
    spent_mapPairs (s := { s with handler := o.2 }) o.1
  rw [Accounted, hnew, hspent, Multiset.add_cons]
  exact hL

theorem enter_accounted (hs : s.Accounted lost) (reqId : UInt16) (cb : CResultCb κ)
    (batching : Bool) : (s.enter reqId cb batching).Accounted lost := by
  unfold enter
  split
  · exact hs
  · split
    · have hL : s.ledger.Sound _ _ _ _ := hs
      rcases reuse_cases s.handler reqId cb with ⟨addr, rest, hstack, hreuse⟩ | ⟨-, hreuse⟩
      · rw [hreuse]
        rw [hstack] at hL
        exact obtainPair_accounted rfl rfl hL.handOut batching
      · rw [hreuse]
        exact obtainPair_accounted rfl rfl hL.make batching
    · exact hs

/-- A step that moves pairs and neither obtains nor returns one. -/
theorem Accounted.of_moved (hs : s.Accounted lost) (hw : t.waiting = s.waiting)
    (hsp : t.spent = s.spent) (hstack : t.handler.rrStack = s.handler.rrStack)
    (hfresh : t.handler.fresh = s.handler.fresh) (hledger : t.ledger = s.ledger) :
    t.Accounted lost := by
  rw [Accounted, hw, hsp, hstack, hfresh, hledger]
  exact hs

theorem push_accounted (hs : s.Accounted lost) (hfree : s.erasing = none) {i : ℕ}
    {c : PendingSend κ} (hc : s.reading[i]? = some c) :
    Accounted lost { s with
      handler := s.handler.push c.batching c.pair
      reading := s.reading.eraseIdx i
      sending := s.sending ++ [c] } := by
  refine hs.of_moved ?_ rfl ?_ ?_ rfl
  · obtain ⟨p, - | -⟩ := c
    · simp only [waiting, queued, hfree, CAsyncServiceHandler.push, map_eq_add_eraseIdx hc,
        addrs_append, addrs_cons, addrs_nil, Bool.false_eq_true, if_false,
        ← Multiset.singleton_add]
      abel
    · simp only [waiting, queued, hfree, CAsyncServiceHandler.push, map_eq_add_eraseIdx hc,
        addrs_append, addrs_cons, addrs_nil, if_true, ← Multiset.singleton_add]
      abel
  · cases c.batching <;> rfl
  · exact CAsyncServiceHandler.push_fresh _ _ _

/-- What `Remove` found comes into the hands of the failed call. -/
theorem removeFailed_accounted (hs : s.Accounted lost) (hfree : s.erasing = none) (i : ℕ)
    (c : PendingSend κ) : (s.removeFailed i c).Accounted lost := by
  unfold removeFailed
  split
  · rename_i q hq
    have haddrs := addrs_removeFrom hq
    obtain ⟨p, - | -⟩ := c
    · refine hs.of_moved ?_ rfl rfl rfl rfl
      simp only [CAsyncServiceHandler.queueOf, Bool.false_eq_true, if_false] at haddrs
      simp only [waiting, queued, hfree, CAsyncServiceHandler.setQueue, haddrs, addrs_append,
        addrs_cons, addrs_nil, Bool.false_eq_true, if_false, ← Multiset.singleton_add]
      abel
    · refine hs.of_moved ?_ rfl rfl rfl rfl
      simp only [CAsyncServiceHandler.queueOf, if_true] at haddrs
      simp only [waiting, queued, hfree, CAsyncServiceHandler.setQueue, haddrs, addrs_append,
        addrs_cons, addrs_nil, if_true, ← Multiset.singleton_add]
      abel
  · exact hs.of_moved rfl rfl rfl rfl rfl

theorem recycle_accounted (hs : s.Accounted lost) {i : ℕ} {p : RRPair κ}
    (hp : s.removed[i]? = some p) :
    Accounted lost { s with
      handler := s.handler.recycle p
      removed := s.removed.eraseIdx i
      ledger := s.ledger.finish [p.addr] } := by
  have hL : s.ledger.Sound _ _ _ _ := hs
  have hwait : s.waiting = waiting { s with removed := s.removed.eraseIdx i } + {p.addr} := by
    simp only [waiting, queued, addrs, map_eq_add_eraseIdx hp]
    abel
  rw [hwait, ← add_assoc] at hL
  exact hL.finish_waiting [p.addr]

theorem lookUp_accounted (hs : s.Accounted lost) (hfree : s.erasing = none) (kind : AnswerKind)
    (random : Bool) (reqId : UInt16) : (s.lookUp kind random reqId).Accounted lost := by
  unfold lookUp
  split
  · exact hs
  · rcases s.handler.getAsyncResultHandler_cases random reqId with ⟨p, q, hlook, haddrs⟩ | hlook
    · rw [hlook]
      refine hs.of_moved ?_ rfl rfl rfl rfl
      simp only [waiting, queued, hfree, haddrs, map_concat, ← Multiset.singleton_add]
      abel
    · rw [hlook]
      exact hs

theorem invoke_accounted (hs : s.Accounted lost) {i : ℕ} {d : Delivery κ}
    (hd : s.answering[i]? = some d) :
    Accounted lost { s with
      answering := s.answering.eraseIdx i
      answered := s.answered ++ [d]
      ledger := s.ledger.use d.pair.addr (d.pair.second.answer d.kind) } := by
  have hL : s.ledger.Sound _ _ _ _ := hs
  have hwait : s.waiting =
      d.pair.addr ::ₘ waiting { s with answering := s.answering.eraseIdx i } := by
    simp only [waiting, queued, map_eq_add_eraseIdx hd, ← Multiset.singleton_add]
    abel
  have hspent : spent { s with answered := s.answered ++ [d] } = d.pair.addr ::ₘ s.spent := by
    simp only [spent, coe_concat, Multiset.map_cons, Multiset.cons_add]
  rw [hwait, Multiset.add_cons] at hL
  have hspend := hL.spend (d.pair.second.answer d.kind)
  rw [← hspent] at hspend
  exact hspend

theorem finish_accounted (hs : s.Accounted lost) {i : ℕ} {d : Delivery κ}
    (hd : s.answered[i]? = some d) :
    Accounted lost { s with
      handler := s.handler.recycle d.pair
      answered := s.answered.eraseIdx i
      ledger := s.ledger.finish [d.pair.addr] } := by
  have hL : s.ledger.Sound _ _ _ _ := hs
  have hspent : s.spent =
      ([d.pair.addr] : List ℕ) + spent { s with answered := s.answered.eraseIdx i } := by
    simp only [spent, map_eq_add_eraseIdx hd, Multiset.coe_singleton, add_assoc]
  rw [hspent] at hL
  exact hL.finish [d.pair.addr]

/-! ### Batches, cancels and aborted jobs -/

theorem commitBatching_accounted (hs : s.Accounted lost) (hfree : s.erasing = none) :
    Accounted lost { s with handler := s.handler.commitBatching } := by
  refine hs.of_moved ?_ rfl rfl rfl rfl
  simp only [waiting, queued, hfree, CAsyncServiceHandler.commitBatching, addrs_append, addrs_nil,
    add_zero]

theorem abortBatching_accounted (hs : s.Accounted lost) (hfree : s.erasing = none) :
    Accounted lost { s with
      handler := s.handler.abortBatching
      ledger := s.ledger.finish (s.handler.vBatching.map RRPair.addr) } := by
  have hL : s.ledger.Sound _ _ _ _ := hs
  have hwait : s.waiting = waiting { s with handler := s.handler.abortBatching } +
      (s.handler.vBatching.map RRPair.addr : List ℕ) := by
    simp only [waiting, queued, hfree, CAsyncServiceHandler.abortBatching, coe_map_addr, addrs_nil]
    abel
  rw [hwait, ← add_assoc] at hL
  have hfinish := hL.finish_waiting (s.handler.vBatching.map RRPair.addr)
  rw [Multiset.coe_add, Multiset.coe_eq_coe.2 List.perm_append_comm] at hfinish
  exact hfinish

theorem clean_accounted (hs : s.Accounted lost) (hfree : s.erasing = none) :
    Accounted lost { s with
      handler := { s.handler with vCallback := [], vBatching := [] }
      cleanings := s.cleanings ++ [⟨[s.handler.vBatching, s.handler.vCallback], 0⟩] } := by
  refine hs.of_moved ?_ ?_ rfl rfl rfl
  · simp only [waiting, queued, hfree, coe_concat, Multiset.cons_bind, Cleaning.waiting,
      List.drop_zero, List.flatten_cons, List.flatten_nil, List.append_nil, addrs_nil]
    abel
  · simp only [spent, coe_concat, Multiset.cons_bind, Cleaning.spent, List.take_zero, addrs_nil]
    abel

/-- The pairs that a call of `CleanCallbacks` is left with, after those of the other calls. -/
theorem bind_set_cleanings {i : ℕ} {c : Cleaning κ} (hc : s.cleanings[i]? = some c)
    (d : Cleaning κ) (f : Cleaning κ → Multiset ℕ) :
    ∃ others, (s.cleanings : Multiset (Cleaning κ)).bind f = f c + others ∧
      (s.cleanings.set i d : Multiset (Cleaning κ)).bind f = f d + others ∧
      (s.cleanings.eraseIdx i : Multiset (Cleaning κ)).bind f = others := by
  refine ⟨(s.cleanings.eraseIdx i : Multiset (Cleaning κ)).bind f, ?_, ?_, rfl⟩
  · rw [coe_eq_cons_eraseIdx hc, Multiset.cons_bind]
  · rw [coe_set hc, Multiset.cons_bind]

theorem cleanNext_accounted (hs : s.Accounted lost) {i : ℕ} {c : Cleaning κ}
    (hc : s.cleanings[i]? = some c) (canceled : Bool) :
    (s.cleanNext i c canceled).Accounted lost := by
  have hL : s.ledger.Sound _ _ _ _ := hs
  unfold cleanNext
  split
  · -- the call returns
    rename_i hqueues
    obtain ⟨queues, it⟩ := c
    obtain rfl : queues = [] := hqueues
    obtain ⟨ow, hw, -, hw'⟩ := bind_set_cleanings hc ⟨[], it⟩ Cleaning.waiting
    obtain ⟨os, hsp, -, hsp'⟩ := bind_set_cleanings hc ⟨[], it⟩ Cleaning.spent
    rw [waiting, spent, hw, hsp, Cleaning.waiting, Cleaning.spent, zero_add, zero_add] at hL
    rw [Accounted, waiting, spent, hw', hsp']
    exact hL
  · rename_i q rest hqueues
    obtain ⟨queues, it⟩ := c
    obtain rfl : queues = q :: rest := hqueues
    split
    · -- the function of the next pair is called
      rename_i p hp
      obtain ⟨hnw, hns⟩ := Cleaning.next hp rest
      obtain ⟨ow, hw, hw', -⟩ := bind_set_cleanings hc ⟨q :: rest, it + 1⟩ Cleaning.waiting
      obtain ⟨os, hsp, hsp', -⟩ := bind_set_cleanings hc ⟨q :: rest, it + 1⟩ Cleaning.spent
      rw [waiting, spent, hw, hsp, hnw, Multiset.cons_add, Multiset.add_cons,
        Multiset.add_cons] at hL
      rw [Accounted, waiting, spent, hw', hsp', hns, Multiset.cons_add, Multiset.add_cons]
      exact hL.spend _
    · -- `CleanQueue` recycles the queue
      rename_i hq
      obtain ⟨hdw, hds⟩ := Cleaning.done hq rest
      obtain ⟨hsw, hss⟩ := Cleaning.start rest
      obtain ⟨ow, hw, hw', -⟩ := bind_set_cleanings hc ⟨rest, 0⟩ Cleaning.waiting
      obtain ⟨os, hsp, hsp', -⟩ := bind_set_cleanings hc ⟨rest, 0⟩ Cleaning.spent
      rw [waiting, spent, hw, hsp, hdw, hds, add_left_comm _ (addrs q)] at hL
      rw [Accounted, waiting, spent, hw', hsp', hsw, hss, zero_add]
      have hfinish := hL.finish (q.map RRPair.addr)
      rw [Multiset.coe_add, Multiset.coe_eq_coe.2 List.perm_append_comm] at hfinish
      exact hfinish

/-- `EraseBack` takes `m_cs` and moves no pair yet. -/
theorem eraseBack_accounted (hs : s.Accounted lost) (hfree : s.erasing = none) (count : ℕ) :
    Accounted lost { s with
      erasing :=
        let total := s.handler.vCallback.length
        let count := min count total
        some ⟨total - count, count⟩ } := by
  refine hs.of_moved ?_ rfl rfl rfl rfl
  simp only [waiting, queued, hfree, List.take_append_drop]

/-- The entries that a running `EraseBack` is about to cut off without having passed them. -/
def cutOff (s : SharedHandler κ) (e : Erasing) : Multiset ℕ :=
  if e.start = e.count then addrs (s.handler.vCallback.drop e.count) else 0

theorem eraseNext_accounted (hs : s.Accounted lost) {e : Erasing} (he : s.erasing = some e) :
    (s.eraseNext e).Accounted (lost + s.cutOff e) := by
  have hL : s.ledger.Sound _ _ _ _ := hs
  unfold eraseNext
  split
  · rename_i hne
    have hcut : s.cutOff e = 0 := by
      rw [cutOff, if_neg hne]
    rw [hcut, add_zero]
    split
    · -- the entry is passed: its function is called and the pair recycled
      rename_i p hp
      obtain ⟨hlt, rfl⟩ := List.getElem?_eq_some_iff.1 hp
      have hwait : s.waiting = s.handler.vCallback[e.start].addr ::ₘ
          waiting { s with erasing := some { e with start := e.start + 1 } } := by
        simp only [waiting, queued, he, List.drop_eq_getElem_cons hlt, addrs_append, addrs_cons,
          Multiset.add_cons, Multiset.cons_add]
      rw [hwait, Multiset.add_cons] at hL
      exact (hL.spend (s.handler.vCallback[e.start].second.discard true)).finish
        [s.handler.vCallback[e.start].addr]
    · exact hs
  · -- what stands behind the last entry passed is cut off
    rename_i heq
    have heq : e.start = e.count := not_not.1 heq
    have hcut : s.cutOff e = addrs (s.handler.vCallback.drop e.count) := by
      rw [cutOff, if_pos heq]
    have hwait : s.waiting = s.cutOff e + waiting { s with
        handler := { s.handler with
          vCallback := s.handler.vCallback.take (s.handler.vCallback.length - e.count) }
        erasing := none } := by
      rw [hcut]
      simp only [waiting, queued, he, heq, addrs_append]
      abel
    rw [hwait, ← add_assoc] at hL
    exact hL

/-! ### Whole runs -/

/-- **The step lemma.** Outside the loop of `EraseBack` no step loses a pair. -/
theorem act_accounted (a : PoolAction κ) (ha : a ≠ .eraseNext) (hs : s.Accounted lost)
    (hact : s.act a = some t) : t.Accounted lost := by
  cases a with
  | enter reqId cb batching =>
    exact Option.some.inj hact ▸ enter_accounted hs reqId cb batching
  | push i =>
    obtain ⟨hfree, hact⟩ := underLock_eq_some hact
    obtain ⟨c, hc, rfl⟩ := Option.map_eq_some_iff.1 hact
    exact push_accounted hs hfree hc
  | send i sent =>
    obtain ⟨c, hc, rfl⟩ := Option.map_eq_some_iff.1 hact
    exact hs
  | remove i =>
    obtain ⟨hfree, hact⟩ := underLock_eq_some hact
    obtain ⟨c, hc, rfl⟩ := Option.map_eq_some_iff.1 hact
    exact removeFailed_accounted hs hfree i c
  | recycle i =>
    obtain ⟨p, hp, rfl⟩ := Option.map_eq_some_iff.1 hact
    exact recycle_accounted hs hp
  | lookUp kind random reqId =>
    obtain ⟨hfree, hact⟩ := underLock_eq_some hact
    exact Option.some.inj hact ▸ lookUp_accounted hs hfree kind random reqId
  | invoke i =>
    obtain ⟨d, hd, rfl⟩ := Option.map_eq_some_iff.1 hact
    exact invoke_accounted hs hd
  | finish i =>
    obtain ⟨d, hd, rfl⟩ := Option.map_eq_some_iff.1 hact
    exact finish_accounted hs hd
  | commitBatching =>
    obtain ⟨hfree, hact⟩ := underLock_eq_some hact
    exact Option.some.inj hact ▸ commitBatching_accounted hs hfree
  | abortBatching =>
    obtain ⟨hfree, hact⟩ := underLock_eq_some hact
    exact Option.some.inj hact ▸ abortBatching_accounted hs hfree
  | eraseBack count =>
    obtain ⟨hfree, hact⟩ := underLock_eq_some hact
    exact Option.some.inj hact ▸ eraseBack_accounted hs hfree count
  | eraseNext => exact absurd rfl ha
  | clean =>
    obtain ⟨hfree, hact⟩ := underLock_eq_some hact
    exact Option.some.inj hact ▸ clean_accounted hs hfree
  | cleanNext i canceled =>
    obtain ⟨c, hc, rfl⟩ := Option.map_eq_some_iff.1 hact
    exact cleanNext_accounted hs hc canceled

/-- **The invariant.** No pair is lost, and a running `EraseBack` erases all of `m_vCallback`. -/
structure Sound (s : SharedHandler κ) : Prop where
  accounted : s.Accounted 0
  erasing : ∀ e ∈ s.erasing, e.count = s.handler.vCallback.length ∧ e.start ≤ e.count
  noFault : s.faulted = false

theorem initial_sound (stack : ℕ) : (initial stack : SharedHandler κ).Sound :=
  ⟨initial_accounted stack, by simp [initial], rfl⟩

theorem Sound.endsOnce (hs : s.Sound) : s.EndsOnce := by
  have hL : s.ledger.Sound _ _ _ _ := hs.accounted
  rw [zero_add] at hL
  refine ⟨fun addr ↦ ?_, fun r ↦ ?_, List.nodup_iff_count_le_one.1 hL.uses_nodup, hs.noFault⟩
  · have h := hL.count_tokens addr
    rwa [waiting_add_spent, Multiset.count_add, Multiset.coe_count] at h
  · have h := hL.count_tenures r
    rwa [waiting_add_spent] at h

theorem step_sound (a : PoolAction κ) (hs : s.Sound) (hC : s.ErasesAll a)
    (hstep : s.step a = some t) : t.Sound := by
  obtain ⟨-, hact⟩ := step_eq_some hstep
  by_cases ha : a = .eraseNext
  · -- the loop: it ends where the queue ends
    subst ha
    obtain ⟨e, he, rfl⟩ := Option.map_eq_some_iff.1 hact
    obtain ⟨hcount, hstart⟩ := hs.erasing e he
    have hacc := eraseNext_accounted hs.accounted he
    have hcut : s.cutOff e = 0 := by
      rw [cutOff, hcount, List.drop_length, addrs_nil, ite_self]
    rw [hcut, add_zero] at hacc
    unfold eraseNext at hacc ⊢
    split at hacc
    · rename_i hne
      have hlt : e.start < s.handler.vCallback.length := by omega
      rw [List.getElem?_eq_getElem hlt] at hacc
      rw [if_pos hne, List.getElem?_eq_getElem hlt]
      refine ⟨hacc, fun e' he' ↦ ?_, hs.noFault⟩
      obtain rfl := Option.some.inj he'
      exact ⟨hcount, by dsimp only; omega⟩
    · rename_i heq
      rw [if_neg heq]
      exact ⟨hacc, by simp, hs.noFault⟩
  · obtain ⟨hfault, hframe⟩ := act_frame a ha hact
    refine ⟨act_accounted a ha hs.accounted hact, fun e he ↦ ?_, hfault.trans hs.noFault⟩
    rcases hframe with ⟨herasing, hlength⟩ | ⟨count, rfl, -, hhandler, herasing⟩
    · rw [herasing] at he
      rw [hlength e he]
      exact hs.erasing e he
    · have hmin : min count s.handler.vCallback.length = s.handler.vCallback.length :=
        Nat.min_eq_right hC
      rw [herasing, hmin] at he
      obtain rfl := Option.some.inj he
      rw [hhandler]
      exact ⟨rfl, Nat.sub_le _ _⟩

/-- **Every callback ends once.** In every run of any number of threads whose calls of `EraseBack`
erase all of `m_vCallback`, from any stock of recycled pairs: every pair is in one of the queues, in
the hands of one call or on the stack, every request gives its pair back at most once and keeps it
until then, and at most one of its functions is called. -/
theorem callbacks_end_once (stack : ℕ) (as : List (PoolAction κ))
    (hin : Machine.Within step ErasesAll (initial stack) as)
    (hrun : Machine.run step (initial stack) as = some s) : s.EndsOnce :=
  (Machine.invariant_of_within (fun _ a _ hu hC hstep ↦ step_sound a hu hC hstep) as
    (initial_sound stack) hin hrun).endsOnce

/-- Two requests, one answered and the other aborted with its job; the first pair is used again. -/
theorem callbacks_end_once_two :
    ∃ s : SharedHandler ℕ, Machine.run step (initial 0)
      [.enter 0x2101 ⟨some 1, some 2, none⟩ false, .push 0, .send 0 true,
        .lookUp .result false 0x2101, .invoke 0, .finish 0,
        .enter 0x2102 ⟨some 3, some 4, none⟩ false, .push 0, .send 0 true, .eraseBack 1, .eraseNext,
        .eraseNext] = some s ∧ s.EndsOnce ∧
      s.ledger.uses = [(0, .result 1), (1, .discarded 4 true)] :=
  ⟨_, rfl, callbacks_end_once 0
    [.enter 0x2101 ⟨some 1, some 2, none⟩ false, .push 0, .send 0 true,
      .lookUp .result false 0x2101, .invoke 0, .finish 0,
      .enter 0x2102 ⟨some 3, some 4, none⟩ false, .push 0, .send 0 true, .eraseBack 1, .eraseNext,
      .eraseNext] (by decide) rfl, rfl⟩

/-- **A partial erase loses a pair.** Two requests wait and the job of the second is aborted: the
loop of `EraseBack` starts where it ends, so the pair of the second request is cut off `m_vCallback`
without being recycled and without a call of its `Discarded`. -/
theorem pair_lost :
    ∃ (as : List (PoolAction ℕ)) (s : SharedHandler ℕ),
      Machine.run step (initial 0) as = some s ∧ ¬ s.EndsOnce :=
  ⟨[.enter 0x2101 ⟨some 1, some 2, none⟩ false, .push 0, .send 0 true,
    .enter 0x2102 ⟨some 3, some 4, none⟩ false, .push 0, .send 0 true, .eraseBack 1, .eraseNext], _,
    rfl, fun h ↦ absurd (h.onePlace 1) (by decide)⟩

/-! ### The condition is exact -/

/-- A pair is lost, or a running `EraseBack` is going to lose one. -/
def Short (s : SharedHandler κ) : Prop :=
  ∃ lost, s.Accounted lost ∧
    (lost ≠ 0 ∨ ∃ e ∈ s.erasing, e.count < s.handler.vCallback.length)

theorem step_short (a : PoolAction κ) (hs : s.Short) (hstep : s.step a = some t) : t.Short := by
  obtain ⟨lost, hacc, hshort⟩ := hs
  obtain ⟨-, hact⟩ := step_eq_some hstep
  by_cases ha : a = .eraseNext
  · subst ha
    obtain ⟨e, he, rfl⟩ := Option.map_eq_some_iff.1 hact
    refine ⟨lost + s.cutOff e, eraseNext_accounted hacc he, ?_⟩
    rcases hshort with hlost | ⟨e', he', hlt⟩
    · refine .inl fun h ↦ hlost ?_
      exact Multiset.le_zero.1 (h ▸ Multiset.le_add_right _ _)
    · obtain rfl : e = e' := Option.some.inj (he.symm.trans he')
      rcases eq_or_ne e.start e.count with heq | hne
      · -- the loop is over, and entries stand behind the last one it passed
        refine .inl fun h ↦ ?_
        have hzero : s.cutOff e = 0 := Multiset.le_zero.1 (h ▸ Multiset.le_add_left _ _)
        have hcut : (s.cutOff e).card = 0 := by rw [hzero, Multiset.card_zero]
        rw [cutOff, if_pos heq, addrs, Multiset.card_map, Multiset.coe_card,
          List.length_drop] at hcut
        omega
      · refine .inr ?_
        rw [eraseNext, if_pos hne]
        split
        · exact ⟨_, rfl, hlt⟩
        · exact ⟨e, he, hlt⟩
  · refine ⟨lost, act_accounted a ha hacc hact, hshort.imp_right ?_⟩
    rintro ⟨e, he, hlt⟩
    rcases (act_frame a ha hact).2 with ⟨herasing, hlength⟩ | ⟨count, -, hfree, -, -⟩
    · exact ⟨e, herasing ▸ he, hlength e he ▸ hlt⟩
    · rw [hfree] at he
      exact absurd he (by simp)

/-- A lost pair stands in no place. -/
theorem Short.not_endsOnce (hs : s.Short) (hidle : s.erasing = none) : ¬ s.EndsOnce := by
  obtain ⟨lost, hacc, hlost | ⟨e, he, -⟩⟩ := hs
  · intro h
    obtain ⟨addr, haddr⟩ := Multiset.exists_mem_of_ne_zero hlost
    have hpos := Multiset.count_pos.2 haddr
    have hall := Tenancy.Ledger.Sound.count_tokens hacc addr
    rw [add_assoc lost, waiting_add_spent, add_assoc, Multiset.count_add, Multiset.count_add,
      Multiset.coe_count, h.onePlace addr] at hall
    omega
  · rw [hidle] at he
    exact absurd he (by simp)

/-- **The condition is exact.** In a run that ends outside `EraseBack`, every callback ends once if
and only if all calls of `EraseBack` erased all of `m_vCallback`. -/
theorem endsOnce_iff (stack : ℕ) (as : List (PoolAction κ))
    (hrun : Machine.run step (initial stack) as = some s) (hidle : s.erasing = none) :
    s.EndsOnce ↔ Machine.Within step ErasesAll (initial stack) as := by
  refine ⟨fun h ↦ ?_, fun hin ↦ (Machine.invariant_of_within
    (fun _ a _ hu hC hstep ↦ step_sound a hu hC hstep) as (initial_sound stack) hin hrun).endsOnce⟩
  by_contra hout
  obtain ⟨as₁, a, as₂, u, v, rfl, hu, hin, hC, hstep, hlast⟩ :=
    Machine.exists_first_leave as hrun hout
  have hsound := Machine.invariant_of_within
    (fun _ a _ hu hC hstep ↦ step_sound a hu hC hstep) as₁ (initial_sound stack) hin hu
  have hv : v.Short := by
    obtain ⟨-, hact⟩ := step_eq_some hstep
    cases a with
    | eraseBack count =>
      have hlt : count < u.handler.vCallback.length := not_le.1 hC
      refine ⟨0, act_accounted _ (by simp) hsound.accounted hact, .inr ?_⟩
      obtain ⟨-, hact⟩ := underLock_eq_some hact
      obtain rfl := Option.some.inj hact
      exact ⟨_, rfl, (Nat.min_le_left _ _).trans_lt hlt⟩
    | _ => exact absurd trivial hC
  exact (Machine.invariant_of_run (fun _ b _ hw hstep ↦ step_short b hw hstep) as₂ hv
    hlast).not_endsOnce hidle h

/-- A request whose job is aborted. -/
theorem endsOnce_iff_one :
    ∃ s : SharedHandler ℕ, Machine.run step (initial 0)
      [.enter 0x2101 ⟨some 1, some 2, none⟩ false, .push 0, .send 0 true, .eraseBack 1, .eraseNext,
        .eraseNext] = some s ∧ s.EndsOnce :=
  ⟨_, rfl, (endsOnce_iff 0 [.enter 0x2101 ⟨some 1, some 2, none⟩ false, .push 0, .send 0 true,
    .eraseBack 1, .eraseNext, .eraseNext] rfl rfl).2 (by decide)⟩

end SharedHandler

end SocketPro.Client
