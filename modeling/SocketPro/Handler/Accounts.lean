import SocketPro.Handler.Entry

/-!
# The accounts of handlers with callbacks

Handlers make entries, and entries leave them. `OneOutcome` is what the handlers owe their callers,
in terms of the entries they hold and of the events so far. `live` are the entries of the requests
that are with the core or were refused.

**Accounts.** `Accounts` is what holds between steps. A step that makes no entry is `Fair`, and
keeps them (`Accounts.step`); a new entry keeps them (`Accounts.make`). `Fair.set` makes the step of
one handler a step of all.
-/

namespace SocketPro.Handler

open Tenancy

variable {κ : Type}

/-- What has happened outside the queues. -/
structure Events (κ : Type) where
  /-- The entries that went out, and why. -/
  exits : List (Entry κ × Reason) := []
  /-- The calls of `SendRequest` that returned false, with the entries they removed. -/
  failed : List (Call κ × List (Entry κ)) := []
  /-- Of each answer the entry of the request that is in a queue, and the entry that was taken. -/
  answers : List (Option (Entry κ) × Option (Entry κ)) := []
  /-- Of each call that drops requests, the entries of the requests that the core has dropped, and
  the entries that were given up. -/
  aborts : List (List (Entry κ) × List (Entry κ)) := []
  /-- The callbacks invoked, in order, with the entries they belong to. -/
  invoked : List (ℕ × Notice κ) := []

/-- One after the other. -/
def Events.append (e f : Events κ) : Events κ where
  exits := e.exits ++ f.exits
  failed := e.failed ++ f.failed
  answers := e.answers ++ f.answers
  aborts := e.aborts ++ f.aborts
  invoked := e.invoked ++ f.invoked

/-- The entries that failed calls have removed. -/
def Events.withdrawn (e : Events κ) : Multiset (Entry κ) :=
  (e.failed : Multiset (Call κ × List (Entry κ))).bind fun p ↦ (p.2 : Multiset (Entry κ))

/-- **One outcome for each request.** -/
structure OneOutcome (held : Multiset (Entry κ)) (made : ℕ) (events : Events κ) : Prop where
  /-- A call that returned false has removed its own entry and no other. -/
  ownEntry : ∀ p ∈ events.failed, p.2 = [p.1.kv]
  /-- An answer takes the entry of its request, if that is in a queue, and no other. -/
  ownAnswer : ∀ p ∈ events.answers, p.2 = p.1
  /-- A call that drops requests gives up the entries of these and no other. -/
  ownAbort : ∀ p ∈ events.aborts, p.2 = p.1
  /-- Every entry is in a handler, removed by a failed call or gone out, once. -/
  once : ∀ r, (held.map Entry.ticket).count r +
    ((events.withdrawn.map Entry.ticket).count r +
      ((events.exits : Multiset (Entry κ × Reason)).map fun x ↦ x.1.ticket).count r) =
    if r < made then 1 else 0
  /-- Of an entry that has gone out the callback that is due was invoked, once and no other. -/
  called : ∀ x ∈ events.exits,
    Custody.given x.1.ticket events.invoked = (x.1.due x.2).toList
  /-- Of no other entry a callback was invoked. -/
  silent : ∀ kv ∈ held + events.withdrawn, Custody.given kv.ticket events.invoked = []

/-! ### Steps -/

/-- What a step may do that makes no entry. -/
structure Fair (held held' live live' : Multiset (Entry κ)) (e : Events κ) : Prop where
  /-- Entries have only moved, or gone out. -/
  keeps : held = held' + e.withdrawn + (e.exits : Multiset (Entry κ × Reason)).map Prod.fst
  live : live' ≤ live
  invoked : e.invoked = e.exits.flatMap (Custody.noticesOf Entry.ticket Entry.due)
  ownEntry : ∀ p ∈ e.failed, p.2 = [p.1.kv]
  ownAnswer : ∀ p ∈ e.answers, p.2 = p.1
  ownAbort : ∀ p ∈ e.aborts, p.2 = p.1

variable {held held' live live' : Multiset (Entry κ)} {e events : Events κ} {made : ℕ}

theorem withdrawn_of_failed_nil (hfailed : e.failed = []) : e.withdrawn = 0 := by
  rw [Events.withdrawn, hfailed]
  rfl

theorem withdrawn_append (e f : Events κ) :
    (e.append f).withdrawn = e.withdrawn + f.withdrawn := by
  rw [Events.withdrawn, Events.append, ← Multiset.coe_add, Multiset.add_bind]
  rfl

/-- A step without events. -/
theorem Fair.quiet (hheld : held = held') (hlive : live' ≤ live) :
    Fair held held' live live' {} where
  keeps := hheld.trans (by rw [withdrawn_of_failed_nil rfl]; simp)
  live := hlive
  invoked := rfl
  ownEntry _ hp := absurd hp List.not_mem_nil
  ownAnswer _ hp := absurd hp List.not_mem_nil
  ownAbort _ hp := absurd hp List.not_mem_nil

/-- Entries go out, and the callbacks that are due are invoked. -/
theorem Fair.out {exits : List (Entry κ × Reason)} {invoked : List (ℕ × Notice κ)}
    (hheld : held = held' + (exits : Multiset (Entry κ × Reason)).map Prod.fst)
    (hlive : live' ≤ live)
    (hinvoked : invoked = exits.flatMap (Custody.noticesOf Entry.ticket Entry.due)) :
    Fair held held' live live' { exits := exits, invoked := invoked } where
  keeps := hheld.trans (by rw [withdrawn_of_failed_nil rfl, add_zero])
  live := hlive
  invoked := hinvoked
  ownEntry _ hp := absurd hp List.not_mem_nil
  ownAnswer _ hp := absurd hp List.not_mem_nil
  ownAbort _ hp := absurd hp List.not_mem_nil

/-- Entries are given up. -/
theorem Fair.giveUp {l : List (Entry κ)} {canceled : Bool}
    (hheld : held = held' + (l : Multiset (Entry κ))) (hlive : live' ≤ live) :
    Fair held held' live live'
      { exits := l.map fun p ↦ (p, .givenUp canceled)
        invoked := l.flatMap fun p ↦ invoke p (.givenUp canceled) } :=
  .out (by rw [map_fst_givenUp, hheld]) hlive (List.flatMap_map _ _ _).symm

/-- A failed call removes its own entry. -/
theorem Fair.fail {c : Call κ} {removed : List (Entry κ)} (hown : removed = [c.kv])
    (hheld : held = held' + {c.kv}) (hlive : live' ≤ live) :
    Fair held held' live live' { failed := [(c, removed)] } where
  keeps := by
    rw [hheld, Events.withdrawn, Multiset.coe_singleton, Multiset.singleton_bind, hown,
      Multiset.coe_nil, Multiset.map_zero, add_zero, Multiset.coe_singleton]
  live := hlive
  invoked := rfl
  ownEntry p hp := by
    obtain rfl := List.mem_singleton.1 hp
    exact hown
  ownAnswer _ hp := absurd hp List.not_mem_nil
  ownAbort _ hp := absurd hp List.not_mem_nil

/-- A step that records an answer. -/
theorem Fair.answers (h : Fair held held' live live' {}) {expected : Option (Entry κ)} :
    Fair held held' live live' { answers := [(expected, expected)] } where
  keeps := h.keeps
  live := h.live
  invoked := rfl
  ownEntry _ hp := absurd hp List.not_mem_nil
  ownAnswer p hp := by
    obtain rfl := List.mem_singleton.1 hp
    rfl
  ownAbort _ hp := absurd hp List.not_mem_nil

/-- A step that records a drop. -/
theorem Fair.aborts {exits : List (Entry κ × Reason)} {invoked : List (ℕ × Notice κ)}
    (h : Fair held held' live live' { exits := exits, invoked := invoked })
    {dropped given : List (Entry κ)} (hown : given = dropped) :
    Fair held held' live live'
      { exits := exits, aborts := [(dropped, given)], invoked := invoked } where
  keeps := h.keeps
  live := h.live
  invoked := h.invoked
  ownEntry _ hp := absurd hp List.not_mem_nil
  ownAnswer _ hp := absurd hp List.not_mem_nil
  ownAbort p hp := by
    obtain rfl := List.mem_singleton.1 hp
    exact hown

/-- **A step of one handler** is a step of all. -/
theorem Fair.set {H : Type} {heldOf liveOf : H → Multiset (Entry κ)} {l : List H} {i : ℕ} {h h' : H}
    (hi : l[i]? = some h) (hfair : Fair (heldOf h) (heldOf h') (liveOf h) (liveOf h') e) :
    Fair (sumOf heldOf l) (sumOf heldOf (l.set i h')) (sumOf liveOf l) (sumOf liveOf (l.set i h'))
      e where
  keeps := by
    have hset := sumOf_set_add heldOf hi h'
    rw [hfair.keeps] at hset
    refine add_right_cancel (b := heldOf h') (Eq.trans hset.symm ?_)
    abel
  live := by
    have hset := sumOf_set_add liveOf hi h'
    exact le_of_add_le_add_right (hset.le.trans (add_le_add_right hfair.live _))
  invoked := hfair.invoked
  ownEntry := hfair.ownEntry
  ownAnswer := hfair.ownAnswer
  ownAbort := hfair.ownAbort

/-! ### Runs -/

/-- **The accounts are right.** -/
structure Accounts (held live : Multiset (Entry κ)) (made : ℕ) (events : Events κ) : Prop where
  custody : Custody.Sound Entry.ticket Entry.due made held events.withdrawn events.exits
    events.invoked
  nodup : (live.map Entry.ticket).Nodup
  fresh : ∀ kv ∈ live, kv.ticket < made
  ownEntry : ∀ p ∈ events.failed, p.2 = [p.1.kv]
  ownAnswer : ∀ p ∈ events.answers, p.2 = p.1
  ownAbort : ∀ p ∈ events.aborts, p.2 = p.1

theorem Accounts.start : Accounts (0 : Multiset (Entry κ)) 0 0 {} where
  custody := Custody.sound_start
  nodup := Multiset.nodup_zero
  fresh _ hkv := absurd hkv (Multiset.notMem_zero _)
  ownEntry _ hp := absurd hp List.not_mem_nil
  ownAnswer _ hp := absurd hp List.not_mem_nil
  ownAbort _ hp := absurd hp List.not_mem_nil

/-- **A fair step keeps the accounts.** -/
theorem Accounts.step (h : Accounts held live made events) (hfair : Fair held held' live live' e) :
    Accounts held' live' made (events.append e) where
  custody := by
    rw [withdrawn_append]
    show Custody.Sound _ _ _ _ _ _ (events.invoked ++ e.invoked)
    rw [hfair.invoked]
    exact h.custody.leave hfair.keeps
  nodup := Multiset.nodup_of_le (Multiset.map_le_map hfair.live) h.nodup
  fresh kv hkv := h.fresh kv (Multiset.mem_of_le hfair.live hkv)
  ownEntry p hp := (List.mem_append.1 hp).elim (h.ownEntry p) (hfair.ownEntry p)
  ownAnswer p hp := (List.mem_append.1 hp).elim (h.ownAnswer p) (hfair.ownAnswer p)
  ownAbort p hp := (List.mem_append.1 hp).elim (h.ownAbort p) (hfair.ownAbort p)

/-- **A new entry keeps the accounts.** -/
theorem Accounts.make (h : Accounts held live made events) {kv : Entry κ}
    (hkv : kv.ticket = made) : Accounts (kv ::ₘ held) (kv ::ₘ live) (made + 1) events where
  custody := h.custody.make hkv
  nodup := by
    rw [Multiset.map_cons, Multiset.nodup_cons]
    refine ⟨fun hin ↦ ?_, h.nodup⟩
    obtain ⟨a, ha, hticket⟩ := Multiset.mem_map.1 hin
    have hlt := h.fresh a ha
    rw [hticket, hkv] at hlt
    exact Nat.lt_irrefl _ hlt
  fresh a ha := by
    rcases Multiset.mem_cons.1 ha with rfl | ha
    · rw [hkv]
      exact Nat.lt_succ_self _
    · exact (h.fresh a ha).trans (Nat.lt_succ_self _)
  ownEntry := h.ownEntry
  ownAnswer := h.ownAnswer
  ownAbort := h.ownAbort

/-- **What the accounts say.** -/
theorem Accounts.oneOutcome (h : Accounts held live made events) :
    OneOutcome held made events where
  ownEntry := h.ownEntry
  ownAnswer := h.ownAnswer
  ownAbort := h.ownAbort
  once := h.custody.count
  called _ hx := h.custody.given_exit hx
  silent _ hkv := h.custody.given_eq_nil hkv

/-- The ticket of an entry that is held was given. -/
theorem Accounts.held_fresh (h : Accounts held live made events) {kv : Entry κ}
    (hkv : kv ∈ held) : kv.ticket < made := by
  have hmem : kv.ticket ∈ Multiset.range made := by
    rw [← h.custody.tickets]
    exact Multiset.mem_map_of_mem _ (Multiset.mem_add.2 (.inl (Multiset.mem_add.2 (.inl hkv))))
  exact Multiset.mem_range.1 hmem

theorem Accounts.held_nodup (h : Accounts held live made events) : held.Nodup := by
  have hbooks : held ≤ Custody.books held events.withdrawn events.exits :=
    (Multiset.le_add_right _ _).trans (Multiset.le_add_right _ _)
  exact Multiset.nodup_of_le hbooks h.custody.nodup.of_map

end SocketPro.Handler
