import SocketPro.Go.AsyncHandler
import Mathlib.Data.Multiset.Bind

/-!
# One outcome for each request

The accounts of the Go handler. Every step moves entries from one place to another (`act_books`), so
each entry is in one place at any time, whatever the goroutines do. What the steps can spoil is
which entry a failed call takes back, the order of the queue, the functions called and the deques,
which panic when they are empty; `Orderly` excludes that.

**The order.** A request goes to the core's batch or to the wire while its entry is the last that
was pushed. Of the entries in `qCallback` and then `qBatching`, those whose requests the core has
stand in the order in which it has or will have written them: the wire, the batch and the request of
the running call.

* `callbacks_one_outcome` — in every run whose steps are `Orderly`, every request has one outcome;
* `not_one_outcome` — a call whose request is refused takes the entry of another one.
-/

namespace SocketPro.Go

open Machine Tenancy

variable {κ : Type} {D : DequePackage (cresultCb κ)}

namespace AsyncHandler

/-! ### Every entry is in one place -/

/-- The entries in the hands of a call of `CleanCallbacks`. -/
def Cleaning.entries (c : Cleaning D) : Multiset (cresultCb κ) :=
  (D.elems c.b : Multiset (cresultCb κ)) + (D.elems c.cb : Multiset (cresultCb κ))

/-- All entries. -/
def books (s : AsyncHandler D) : Multiset (cresultCb κ) :=
  (s.reading : Multiset (Call κ)).map Call.entry + (D.elems s.qCallback : Multiset (cresultCb κ)) +
    (D.elems s.qBatching : Multiset (cresultCb κ)) +
    (s.answering : Multiset (cresultCb κ × AnswerKind)).map Prod.fst +
    (s.cleanings : Multiset (Cleaning D)).bind Cleaning.entries +
    (s.exits : Multiset (Exit κ)).map Exit.entry +
    (s.takenBack : Multiset (Call κ × cresultCb κ)).map Prod.snd +
    (s.merged : Multiset (cresultCb κ))

variable {s t : AsyncHandler D}

theorem entries_eq (l : List (Cleaning D)) :
    ((l.flatMap fun c ↦ D.elems c.b ++ D.elems c.cb : List (cresultCb κ)) :
      Multiset (cresultCb κ)) = (l : Multiset (Cleaning D)).bind Cleaning.entries := by
  rw [← Multiset.coe_bind]
  rfl

theorem books_eq (s : AsyncHandler D) :
    s.books = (s.present : Multiset (cresultCb κ)) + (s.gone : Multiset (cresultCb κ)) := by
  rw [present, gone]
  simp only [← Multiset.coe_add, entries_eq, ← Multiset.map_coe, books]
  abel

/-- A step has moved entries, or made one. -/
def Moves (s t : AsyncHandler D) : Prop := t.books = s.books ∧ t.tickets = s.tickets

theorem coe_elems_popFront {d d' : D.Deque} {e : cresultCb κ} (h : D.PopFront d = some (e, d')) :
    (D.elems d : Multiset (cresultCb κ)) = {e} + (D.elems d' : Multiset (cresultCb κ)) := by
  rw [D.elems_of_popFront h, ← Multiset.cons_coe, Multiset.singleton_add]

theorem coe_elems_popBack {d d' : D.Deque} {e : cresultCb κ} (h : D.PopBack d = some (e, d')) :
    (D.elems d : Multiset (cresultCb κ)) = (D.elems d' : Multiset (cresultCb κ)) + {e} := by
  rw [D.elems_of_popBack h, coe_append_singleton]

theorem push_moves {i : ℕ} {c : Call κ} (hc : s.reading[i]? = some c) :
    Moves s { s.setQueue c.batching (D.PushBack (s.queueOf c.batching) c.entry) with
      reading := s.reading.eraseIdx i
      sending := some c } := by
  obtain ⟨e, - | -⟩ := c
  all_goals
    refine ⟨?_, rfl⟩
    simp only [books, setQueue, queueOf, Bool.false_eq_true, if_true, if_false, coe_eraseIdx hc,
      DequePackage.elems_pushBack, coe_append_singleton, Multiset.map_add, Multiset.map_singleton]
    abel

theorem popBack_moves {i : ℕ} {c : Call κ} : Moves s (s.popBack i c) := by
  rw [popBack]
  split
  · next e q hpop =>
    obtain ⟨entry, - | -⟩ := c
    all_goals
      simp only [queueOf, Bool.false_eq_true, if_true, if_false] at hpop
      refine ⟨?_, rfl⟩
      simp only [books, setQueue, Bool.false_eq_true, if_true, if_false, coe_elems_popBack hpop,
        coe_append_singleton, Multiset.map_add, Multiset.map_singleton]
      abel
  · exact ⟨rfl, rfl⟩

theorem commitBatching_moves : Moves s s.commitBatching := by
  obtain ⟨hdst, hsrc⟩ := D.elems_moveAll s.qCallback s.qBatching
  refine ⟨?_, rfl⟩
  simp only [books, commitBatching, hdst, hsrc, ← Multiset.coe_add, Multiset.coe_nil]
  abel

theorem abortBatching_moves : Moves s s.abortBatching := by
  have hentry : ((fun x : Exit κ ↦ x.entry) ∘ fun e : cresultCb κ ↦
      (⟨e, .givenUp true, none⟩ : Exit κ)) = id := rfl
  refine ⟨?_, rfl⟩
  simp only [books, abortBatching, DequePackage.elems_new, ← Multiset.coe_add, ← Multiset.map_coe,
    Multiset.map_add, Multiset.map_map, hentry, Multiset.map_id, Multiset.coe_nil]
  abel

theorem popFront_moves {i : ℕ} {kind : AnswerKind} : Moves s (s.popFront i kind) := by
  rw [popFront]
  split
  · next e q hpop =>
    refine ⟨?_, rfl⟩
    simp only [books, coe_elems_popFront hpop, coe_append_singleton, Multiset.map_add,
      Multiset.map_singleton]
    abel
  · exact ⟨rfl, rfl⟩

theorem answer_moves {i : ℕ} {a : cresultCb κ × AnswerKind} (ha : s.answering[i]? = some a) :
    Moves s (s.answer i a.1 a.2) := by
  refine ⟨?_, rfl⟩
  simp only [books, answer, coe_eraseIdx ha, coe_append_singleton, Multiset.map_add,
    Multiset.map_singleton]
  abel

theorem appendTo_moves : Moves s s.appendTo := by
  refine ⟨?_, rfl⟩
  simp only [books, appendTo, DequePackage.elems_new, ← Multiset.coe_add, Multiset.coe_nil]
  abel

theorem clean_moves (canceled : Bool) : Moves s (s.clean canceled) := by
  refine ⟨?_, rfl⟩
  simp only [books, clean, DequePackage.elems_new, coe_append_singleton, Multiset.add_bind,
    Multiset.singleton_bind, Cleaning.entries, Multiset.coe_nil]
  abel

theorem coe_set_cleaning {l : List (Cleaning D)} {i : ℕ} {c : Cleaning D} (hc : l[i]? = some c)
    (c' : Cleaning D) : (l.set i c' : Multiset (Cleaning D)) =
      {c'} + (l.eraseIdx i : Multiset (Cleaning D)) := by
  rw [coe_set hc, Multiset.singleton_add]

theorem cleanNext_moves {i : ℕ} {c : Cleaning D} (hc : s.cleanings[i]? = some c) :
    Moves s (s.cleanNext i c) := by
  rw [cleanNext]
  split
  · next e b hpop =>
    refine ⟨?_, rfl⟩
    simp only [books, coe_set_cleaning hc, coe_eraseIdx hc, Multiset.add_bind,
      Multiset.singleton_bind, Cleaning.entries, coe_elems_popFront hpop, coe_append_singleton,
      Multiset.map_add, Multiset.map_singleton]
    abel
  · next hb =>
    split
    · next e cb hpop =>
      refine ⟨?_, rfl⟩
      simp only [books, coe_set_cleaning hc, coe_eraseIdx hc, Multiset.add_bind,
        Multiset.singleton_bind, Cleaning.entries, coe_elems_popFront hpop, coe_append_singleton,
        Multiset.map_add, Multiset.map_singleton]
      abel
    · next hcb =>
      refine ⟨?_, rfl⟩
      simp only [books, coe_eraseIdx hc, Multiset.add_bind, Multiset.singleton_bind,
        Cleaning.entries, D.elems_of_popFront_none hb, D.elems_of_popFront_none hcb,
        Multiset.coe_nil, zero_add]

theorem coreCommit_moves (n : ℕ) (r : CommitResult) : Moves s (s.coreCommit n r) := by
  cases r <;> exact ⟨rfl, rfl⟩

theorem act_moves (a : Action κ) (hact : s.act a = some t) :
    Moves s t ∨ ∃ reqId rh discarded se, a = .enter reqId rh discarded se ∧
      t = s.enter reqId rh discarded se := by
  cases a with
  | enter reqId rh discarded se =>
    rw [act] at hact
    split at hact
    · exact .inr ⟨reqId, rh, discarded, se, rfl, (Option.some.inj hact).symm⟩
    · exact nomatch hact
  | push i =>
    rw [act] at hact
    split at hact
    · next c hsend hc =>
      obtain rfl := Option.some.inj hact
      exact .inl (push_moves hc)
    · exact nomatch hact
  | send sent =>
    obtain ⟨c, -, rfl⟩ := Option.map_eq_some_iff.1 hact
    rw [coreSend]
    split
    · split <;> exact .inl ⟨rfl, rfl⟩
    · exact .inl ⟨rfl, rfl⟩
  | sendPlain sent =>
    rw [act] at hact
    split at hact
    · exact .inl (Option.some.inj hact ▸ ⟨rfl, rfl⟩)
    · exact nomatch hact
  | popBack i =>
    obtain ⟨c, -, rfl⟩ := Option.map_eq_some_iff.1 hact
    exact .inl popBack_moves
  | startBatching ok =>
    obtain rfl := Option.some.inj hact
    split <;> exact .inl ⟨rfl, rfl⟩
  | commitBatching => exact .inl (Option.some.inj hact ▸ commitBatching_moves)
  | coreCommit r =>
    rw [act] at hact
    split at hact
    · exact nomatch hact
    · exact .inl (Option.some.inj hact ▸ coreCommit_moves _ r)
  | abortBatching => exact .inl (Option.some.inj hact ▸ abortBatching_moves)
  | coreAbort ok =>
    rw [act] at hact
    split at hact
    · exact nomatch hact
    · obtain rfl := Option.some.inj hact
      rw [coreAbort]
      split <;> exact .inl ⟨rfl, rfl⟩
  | lookUp kind reqId =>
    obtain rfl := Option.some.inj hact
    rw [lookUp]
    split <;> exact .inl ⟨rfl, rfl⟩
  | front i =>
    obtain ⟨l, -, rfl⟩ := Option.map_eq_some_iff.1 hact
    rw [front]
    split
    · split <;> exact .inl ⟨rfl, rfl⟩
    · exact .inl ⟨rfl, rfl⟩
  | popFront i =>
    obtain ⟨kind, -, rfl⟩ := Option.map_eq_some_iff.1 hact
    exact .inl popFront_moves
  | answer i =>
    obtain ⟨a, ha, rfl⟩ := Option.map_eq_some_iff.1 hact
    exact .inl (answer_moves ha)
  | appendTo => exact .inl (Option.some.inj hact ▸ appendTo_moves)
  | clean canceled => exact .inl (Option.some.inj hact ▸ clean_moves canceled)
  | cleanNext i =>
    obtain ⟨c, hc, rfl⟩ := Option.map_eq_some_iff.1 hact
    exact .inl (cleanNext_moves hc)

/-- Every ticket is on one entry. -/
def Booked (s : AsyncHandler D) : Prop :=
  s.books.map cresultCb.ticket = Multiset.range s.tickets

theorem enter_booked (hs : s.Booked) (reqId : UInt16) (rh discarded se : Option κ) :
    (s.enter reqId rh discarded se).Booked := by
  have hbooks : (s.enter reqId rh discarded se).books =
      {⟨reqId, rh, discarded, se, s.tickets⟩} + s.books := by
    simp only [books, enter, coe_append_singleton, Multiset.map_add, Multiset.map_singleton]
    abel
  have htickets : (s.enter reqId rh discarded se).tickets = s.tickets + 1 := rfl
  rw [Booked, hbooks, Multiset.map_add, Multiset.map_singleton, htickets, Multiset.range_succ,
    ← Multiset.singleton_add]
  exact congrArg _ hs

theorem act_booked (hs : s.Booked) (a : Action κ) (hact : s.act a = some t) : t.Booked := by
  rcases act_moves a hact with ⟨hbooks, htickets⟩ | ⟨reqId, rh, discarded, se, -, rfl⟩
  · rw [Booked, hbooks, htickets]
    exact hs
  · exact enter_booked hs reqId rh discarded se

/-- The books, ticket by ticket. -/
theorem Booked.count (hs : s.Booked) (r : ℕ) :
    (ticketsOf s.present).count r + (ticketsOf s.gone).count r =
      if r < s.tickets then 1 else 0 := by
  have hcount := congrArg (Multiset.count r) hs
  rwa [books_eq, Multiset.map_add, Multiset.count_add, Multiset.map_coe, Multiset.map_coe,
    Multiset.coe_count, Multiset.coe_count, ← Multiset.coe_range, Multiset.coe_count,
    List.count_range] at hcount

theorem Booked.nodup (hs : s.Booked) : (s.books.map cresultCb.ticket).Nodup := by
  rw [hs]
  exact Multiset.nodup_range _

/-! ### The order of the queue -/

/-- The entries in the queues. -/
def queues (s : AsyncHandler D) : List (cresultCb κ) := D.elems s.qCallback ++ D.elems s.qBatching

/-- The requests in the order in which they are or will be written. -/
def order (s : AsyncHandler D) : List ℕ :=
  s.wire ++ s.batch ++ s.sending.toList.map fun c ↦ c.entry.ticket

/-- The tickets of the calls that have not pushed their entry. -/
def unsent (s : AsyncHandler D) : List ℕ := s.reading.map fun c ↦ c.entry.ticket

/-- The queues are in line with what the core has. -/
structure Lined (s : AsyncHandler D) : Prop where
  /-- Without batching there is no batch. -/
  off : s.batching = false → s.batch = []
  line : InLine (ticketsOf s.queues) s.order
  nodup : (s.order ++ s.unsent).Nodup
  lt : ∀ r ∈ s.order ++ s.unsent, r < s.tickets

/-- Steps that take entries out of the queues and requests from the core. -/
theorem Lined.of_sublist (hs : s.Lined) (hoff : t.batching = false → t.batch = [])
    (hqueues : t.queues.Sublist s.queues) (horder : t.order.Sublist s.order)
    (hunsent : t.unsent = s.unsent) (htickets : t.tickets = s.tickets) : t.Lined := by
  have hsub : (t.order ++ t.unsent).Sublist (s.order ++ s.unsent) := by
    rw [hunsent]
    exact horder.append (List.Sublist.refl _)
  refine ⟨hoff, ?_, hs.nodup.sublist hsub, fun r hr ↦ ?_⟩
  · have hnodup : s.order.Nodup := hs.nodup.sublist (List.sublist_append_left _ _)
    exact (hs.line.of_sublist (hqueues.map _)).to_sublist hnodup horder
  · rw [htickets]
    exact hs.lt r (hsub.subset hr)

theorem enter_lined (hs : s.Lined) (reqId : UInt16) (rh discarded se : Option κ) :
    (s.enter reqId rh discarded se).Lined := by
  have hunsent : (s.enter reqId rh discarded se).unsent = s.unsent ++ [s.tickets] := by
    rw [unsent, enter, List.map_append]
    rfl
  have horder : (s.enter reqId rh discarded se).order = s.order := rfl
  refine ⟨hs.off, hs.line, ?_, fun r hr ↦ ?_⟩
  · rw [horder, hunsent, ← List.append_assoc]
    refine hs.nodup.append (List.nodup_singleton _) ?_
    rintro r hr hmem
    obtain rfl := List.mem_singleton.1 hmem
    exact absurd (hs.lt _ hr) (lt_irrefl _)
  · rw [horder, hunsent, ← List.append_assoc] at hr
    show r < s.tickets + 1
    rcases List.mem_append.1 hr with hr | hr
    · exact Nat.lt_succ_of_lt (hs.lt r hr)
    · rw [List.mem_singleton.1 hr]
      exact Nat.lt_succ_self _

/-- A call that has not pushed its entry has it in no queue. -/
theorem Booked.unsent_not_queued (hs : s.Booked) {i : ℕ} {c : Call κ}
    (hc : s.reading[i]? = some c) : c.entry.ticket ∉ ticketsOf s.queues := by
  have hsplit : s.books = c.entry ::ₘ ((s.queues : Multiset (cresultCb κ)) +
      (((s.reading.eraseIdx i : List (Call κ)) : Multiset (Call κ)).map Call.entry +
        (s.answering : Multiset (cresultCb κ × AnswerKind)).map Prod.fst +
        (s.cleanings : Multiset (Cleaning D)).bind Cleaning.entries +
        (s.gone : Multiset (cresultCb κ)))) := by
    rw [← Multiset.singleton_add]
    simp only [books, queues, gone, coe_eraseIdx hc, ← Multiset.coe_add, ← Multiset.map_coe,
      Multiset.map_add, Multiset.map_singleton]
    abel
  have hnodup := hs.nodup
  rw [hsplit, Multiset.map_cons, Multiset.nodup_cons, Multiset.map_add] at hnodup
  exact fun hmem ↦ hnodup.1 (Multiset.mem_add.2 (.inl (Multiset.mem_coe.2 hmem)))

theorem push_lined (hb : s.Booked) (hs : s.Lined) {i : ℕ} {c : Call κ}
    (hc : s.reading[i]? = some c) (hsend : s.sending = none)
    (hC : c.batching = false → ∀ e ∈ D.elems s.qBatching, e.ticket ∉ s.wire ++ s.batch) :
    Lined { s.setQueue c.batching (D.PushBack (s.queueOf c.batching) c.entry) with
      reading := s.reading.eraseIdx i
      sending := some c } := by
  have hnew := hb.unsent_not_queued hc
  have hkeep : s.order = s.wire ++ s.batch := by
    rw [order, hsend, Option.toList_none, List.map_nil, List.append_nil]
  have hperm : ((s.wire ++ s.batch) ++ [c.entry.ticket] ++
      (s.reading.eraseIdx i).map fun c ↦ c.entry.ticket).Perm (s.order ++ s.unsent) := by
    have hread := (List.getElem_cons_eraseIdx_perm (List.getElem?_eq_some_iff.1 hc).1).map
      fun c ↦ c.entry.ticket
    rw [(List.getElem?_eq_some_iff.1 hc).2, List.map_cons] at hread
    rw [hkeep, List.append_assoc (s.wire ++ s.batch)]
    exact hread.append_left _
  have hline := hs.line
  rw [hkeep] at hline
  obtain ⟨e, - | -⟩ := c
  · -- an entry for `qCallback`: nothing behind it is in the core
    refine ⟨hs.off, ?_, hperm.nodup_iff.2 hs.nodup, fun r hr ↦ hs.lt r (hperm.mem_iff.1 hr)⟩
    rw [queues, ticketsOf, List.map_append] at hline hnew
    have hinsert := hline.insert hnew fun r hr ↦ by
      obtain ⟨e', he', rfl⟩ := List.mem_map.1 hr
      exact hC rfl e' he'
    show InLine (ticketsOf (D.elems (D.PushBack s.qCallback e) ++ D.elems s.qBatching)) _
    rw [DequePackage.elems_pushBack, List.append_assoc, List.singleton_append, ticketsOf,
      List.map_append, List.map_cons]
    exact hinsert
  · -- an entry for `qBatching`: nothing stands behind it
    refine ⟨hs.off, ?_, hperm.nodup_iff.2 hs.nodup, fun r hr ↦ hs.lt r (hperm.mem_iff.1 hr)⟩
    rw [← List.append_nil (ticketsOf s.queues)] at hline hnew
    have hinsert := hline.insert hnew fun r hr ↦ absurd hr List.not_mem_nil
    show InLine (ticketsOf (D.elems s.qCallback ++ D.elems (D.PushBack s.qBatching e))) _
    rw [DequePackage.elems_pushBack, ← List.append_assoc, ticketsOf, List.map_append]
    exact hinsert

theorem send_lined (hs : s.Lined) {c : Call κ} (hsend : s.sending = some c) (sent : Bool) :
    (s.coreSend c sent).Lined := by
  have horder : s.order = s.wire ++ s.batch ++ [c.entry.ticket] := by
    rw [order, hsend]
    rfl
  rw [coreSend]
  split
  · split
    · next hon =>
      refine hs.of_sublist (fun hoff ↦ absurd (hon.symm.trans hoff) (by decide))
        (List.Sublist.refl _) ?_ rfl rfl
      rw [horder, List.append_assoc]
      simp [order]
    · next hoff =>
      have hbatch := hs.off (Bool.eq_false_of_not_eq_true hoff)
      refine hs.of_sublist hs.off (List.Sublist.refl _) ?_ rfl rfl
      rw [horder, hbatch]
      simp [order]
  · refine hs.of_sublist hs.off (List.Sublist.refl _) ?_ rfl rfl
    rw [horder]
    simp [order]

theorem popBack_lined (hs : s.Lined) {i : ℕ} {c : Call κ} : (s.popBack i c).Lined := by
  rw [popBack]
  split
  · next e q hpop =>
    have hq := D.elems_of_popBack hpop
    obtain ⟨entry, - | -⟩ := c
    · refine hs.of_sublist hs.off ?_ (List.Sublist.refl _) rfl rfl
      show (D.elems q ++ D.elems s.qBatching).Sublist (D.elems s.qCallback ++ D.elems s.qBatching)
      rw [show D.elems s.qCallback = D.elems q ++ [e] from hq]
      exact (List.sublist_append_left _ _).append (List.Sublist.refl _)
    · refine hs.of_sublist hs.off ?_ (List.Sublist.refl _) rfl rfl
      show (D.elems s.qCallback ++ D.elems q).Sublist (D.elems s.qCallback ++ D.elems s.qBatching)
      rw [show D.elems s.qBatching = D.elems q ++ [e] from hq]
      exact (List.Sublist.refl _).append (List.sublist_append_left _ _)
  · exact hs.of_sublist hs.off (List.Sublist.refl _) (List.Sublist.refl _) rfl rfl

theorem commitBatching_lined (hs : s.Lined) : s.commitBatching.Lined := by
  obtain ⟨hdst, hsrc⟩ := D.elems_moveAll s.qCallback s.qBatching
  have hqueues : s.commitBatching.queues = s.queues := by
    rw [queues, commitBatching, hdst, hsrc, List.append_nil]
    rfl
  exact hs.of_sublist hs.off (hqueues ▸ List.Sublist.refl _) (List.Sublist.refl _) rfl rfl

theorem coreCommit_lined (hs : s.Lined) (n : ℕ) (r : CommitResult) : (s.coreCommit n r).Lined := by
  cases r with
  | written =>
    refine hs.of_sublist (fun _ ↦ rfl) (List.Sublist.refl _) ?_ rfl rfl
    simp [order, coreCommit]
  | dropped =>
    refine hs.of_sublist (fun _ ↦ rfl) (List.Sublist.refl _) ?_ rfl rfl
    simp [order, coreCommit]
  | kept => exact hs.of_sublist hs.off (List.Sublist.refl _) (List.Sublist.refl _) rfl rfl

theorem popFront_lined (hs : s.Lined) {i : ℕ} {kind : AnswerKind} :
    (s.popFront i kind).Lined := by
  rw [popFront]
  split
  · next e q hpop =>
    refine hs.of_sublist hs.off ?_ (List.Sublist.refl _) rfl rfl
    show (D.elems q ++ D.elems s.qBatching).Sublist (D.elems s.qCallback ++ D.elems s.qBatching)
    rw [D.elems_of_popFront hpop]
    exact (List.sublist_cons_self _ _).append (List.Sublist.refl _)
  · exact hs.of_sublist hs.off (List.Sublist.refl _) (List.Sublist.refl _) rfl rfl

/-- Steps that leave `qCallback` or `qBatching` empty. -/
theorem Lined.of_emptied (hs : s.Lined) (hbatching : t.batching = s.batching)
    (hcallback : D.elems t.qCallback = D.elems s.qCallback ∨ D.elems t.qCallback = [])
    (hqbatching : D.elems t.qBatching = D.elems s.qBatching ∨ D.elems t.qBatching = [])
    (hbatch : t.batch = s.batch) (horder : t.order = s.order) (hunsent : t.unsent = s.unsent)
    (htickets : t.tickets = s.tickets) : t.Lined := by
  refine hs.of_sublist (by rw [hbatching, hbatch]; exact hs.off) ?_ (horder ▸ List.Sublist.refl _)
    hunsent htickets
  refine List.Sublist.append ?_ ?_
  · rcases hcallback with h | h
    · exact h ▸ List.Sublist.refl _
    · exact h ▸ List.nil_sublist _
  · rcases hqbatching with h | h
    · exact h ▸ List.Sublist.refl _
    · exact h ▸ List.nil_sublist _

theorem act_lined (hb : s.Booked) (hs : s.Lined) (a : Action κ) (hC : s.Orderly a)
    (hact : s.act a = some t) : t.Lined := by
  -- a step that touches neither the queues nor the core
  have hsame : ∀ u : AsyncHandler D, u.batching = s.batching → u.qCallback = s.qCallback →
      u.qBatching = s.qBatching → u.batch = s.batch → u.order = s.order → u.unsent = s.unsent →
      u.tickets = s.tickets → u.Lined := fun u h h₁ h₂ h₃ h₄ h₅ h₆ ↦
    hs.of_emptied h (.inl (congrArg D.elems h₁)) (.inl (congrArg D.elems h₂)) h₃ h₄ h₅ h₆
  cases a with
  | enter reqId rh discarded se =>
    rw [act] at hact
    split at hact
    · exact Option.some.inj hact ▸ enter_lined hs reqId rh discarded se
    · exact nomatch hact
  | push i =>
    rw [act] at hact
    split at hact
    · next c hsend hc =>
      obtain rfl := Option.some.inj hact
      exact push_lined hb hs hc hsend (hC c hc)
    · exact nomatch hact
  | send sent =>
    obtain ⟨c, hc, rfl⟩ := Option.map_eq_some_iff.1 hact
    exact send_lined hs hc sent
  | sendPlain sent =>
    rw [act] at hact
    split at hact
    · exact Option.some.inj hact ▸ hs
    · exact nomatch hact
  | popBack i =>
    obtain ⟨c, -, rfl⟩ := Option.map_eq_some_iff.1 hact
    exact popBack_lined hs
  | startBatching ok =>
    obtain rfl := Option.some.inj hact
    split
    · exact hs.of_sublist (fun h ↦ nomatch h) (List.Sublist.refl _) (List.Sublist.refl _) rfl rfl
    · exact hs
  | commitBatching => exact Option.some.inj hact ▸ commitBatching_lined hs
  | coreCommit r =>
    rw [act] at hact
    split at hact
    · exact nomatch hact
    · exact Option.some.inj hact ▸ coreCommit_lined hs _ r
  | abortBatching =>
    obtain rfl := Option.some.inj hact
    exact hs.of_emptied rfl (.inl rfl) (.inr D.elems_new) rfl rfl rfl rfl
  | coreAbort ok =>
    rw [act] at hact
    split at hact
    · exact nomatch hact
    · obtain rfl := Option.some.inj hact
      rw [coreAbort]
      split
      · refine hs.of_sublist (fun _ ↦ rfl) (List.Sublist.refl _) ?_ rfl rfl
        simp [order]
      · exact hsame _ rfl rfl rfl rfl rfl rfl rfl
  | lookUp kind reqId =>
    obtain rfl := Option.some.inj hact
    rw [lookUp]
    split <;> exact hsame _ rfl rfl rfl rfl rfl rfl rfl
  | front i =>
    obtain ⟨l, -, rfl⟩ := Option.map_eq_some_iff.1 hact
    rw [front]
    split
    · split <;> exact hsame _ rfl rfl rfl rfl rfl rfl rfl
    · exact hsame _ rfl rfl rfl rfl rfl rfl rfl
  | popFront i =>
    obtain ⟨kind, -, rfl⟩ := Option.map_eq_some_iff.1 hact
    exact popFront_lined hs
  | answer i =>
    obtain ⟨a, -, rfl⟩ := Option.map_eq_some_iff.1 hact
    exact hsame _ rfl rfl rfl rfl rfl rfl rfl
  | appendTo =>
    obtain rfl := Option.some.inj hact
    exact hs.of_emptied rfl (.inr D.elems_new) (.inl rfl) rfl rfl rfl rfl
  | clean canceled =>
    obtain rfl := Option.some.inj hact
    exact hs.of_emptied rfl (.inr D.elems_new) (.inr D.elems_new) rfl rfl rfl rfl
  | cleanNext i =>
    obtain ⟨c, -, rfl⟩ := Option.map_eq_some_iff.1 hact
    rw [cleanNext]
    split
    · exact hsame _ rfl rfl rfl rfl rfl rfl rfl
    · split <;> exact hsame _ rfl rfl rfl rfl rfl rfl rfl

/-! ### Functions, failed calls and panics -/

/-- What the books and the order do not say. -/
structure Proper (s : AsyncHandler D) : Prop where
  ownEntry : ∀ p ∈ s.takenBack, p.2 = p.1.entry
  called : ∀ x ∈ s.exits, x.called = x.entry.due x.reason
  noPanic : s.panicked = false

theorem forall_mem_concat {α : Type} {P : α → Prop} {l : List α} {a : α} (hl : ∀ x ∈ l, P x)
    (ha : P a) : ∀ x ∈ l ++ [a], P x := by
  intro x hx
  rcases List.mem_append.1 hx with hx | hx
  · exact hl x hx
  · exact List.mem_singleton.1 hx ▸ ha

theorem popBack_proper (hs : s.Proper) {i : ℕ} {c : Call κ}
    (hlast : (D.elems (s.queueOf c.batching)).getLast? = some c.entry) :
    (s.popBack i c).Proper := by
  rw [popBack]
  split
  · next e q hpop =>
    rw [D.elems_of_popBack hpop, List.getLast?_concat] at hlast
    have hset : (s.setQueue c.batching q).panicked = s.panicked ∧
        (s.setQueue c.batching q).exits = s.exits := by
      rw [setQueue]
      split <;> exact ⟨rfl, rfl⟩
    exact ⟨forall_mem_concat hs.ownEntry (Option.some.inj hlast),
      by rw [show _ = s.exits from hset.2]; exact hs.called, hset.1.trans hs.noPanic⟩
  · next hpop =>
    rw [D.elems_of_popBack_none hpop] at hlast
    exact nomatch hlast

theorem front_proper (hs : s.Proper) (hne : D.elems s.qCallback ≠ []) {i : ℕ} {kind : AnswerKind}
    {reqId : UInt16} : (s.front i kind reqId).Proper := by
  rw [front]
  split
  · split <;> exact ⟨hs.ownEntry, hs.called, hs.noPanic⟩
  · next hfront =>
    rw [D.front_eq] at hfront
    exact absurd (List.head?_eq_none_iff.1 hfront) hne

theorem popFront_proper (hs : s.Proper) (hne : D.elems s.qCallback ≠ []) {i : ℕ}
    {kind : AnswerKind} : (s.popFront i kind).Proper := by
  rw [popFront]
  split
  · exact ⟨hs.ownEntry, hs.called, hs.noPanic⟩
  · next hpop => exact absurd (D.elems_of_popFront_none hpop) hne

theorem answer_proper (hs : s.Proper) {i : ℕ} {a : cresultCb κ × AnswerKind}
    (hC : a.1.due (.answered a.2) ≠ none → 0 < a.1.reqId) : (s.answer i a.1 a.2).Proper := by
  refine ⟨hs.ownEntry, forall_mem_concat hs.called ?_, hs.noPanic⟩
  show (if 0 < a.1.reqId then a.1.due (.answered a.2) else none) = a.1.due (.answered a.2)
  split
  · rfl
  · next hzero => exact (not_not.1 fun hdue ↦ hzero (hC hdue)).symm

theorem abortBatching_proper (hs : s.Proper)
    (hC : ∀ e ∈ D.elems s.qBatching, e.discarded = none) : s.abortBatching.Proper := by
  refine ⟨hs.ownEntry, fun x hx ↦ ?_, hs.noPanic⟩
  rcases List.mem_append.1 hx with hx | hx
  · exact hs.called x hx
  · obtain ⟨e, he, rfl⟩ := List.mem_map.1 hx
    rw [cresultCb.due, hC e he]
    rfl

theorem cleanNext_proper (hs : s.Proper) {i : ℕ} {c : Cleaning D} : (s.cleanNext i c).Proper := by
  rw [cleanNext]
  split
  · exact ⟨hs.ownEntry, forall_mem_concat hs.called rfl, hs.noPanic⟩
  · split
    · exact ⟨hs.ownEntry, forall_mem_concat hs.called rfl, hs.noPanic⟩
    · exact ⟨hs.ownEntry, hs.called, hs.noPanic⟩

theorem act_proper (hs : s.Proper) (a : Action κ) (hC : s.Orderly a) (hact : s.act a = some t) :
    t.Proper := by
  have hsame : ∀ u : AsyncHandler D, u.takenBack = s.takenBack → u.exits = s.exits →
      u.panicked = s.panicked → u.Proper := fun u h₁ h₂ h₃ ↦
    ⟨h₁ ▸ hs.ownEntry, h₂ ▸ hs.called, h₃.trans hs.noPanic⟩
  cases a with
  | enter reqId rh discarded se =>
    rw [act] at hact
    split at hact
    · exact Option.some.inj hact ▸ hsame _ rfl rfl rfl
    · exact nomatch hact
  | push i =>
    rw [act] at hact
    split at hact
    · next c hsend hc =>
      obtain rfl := Option.some.inj hact
      rw [setQueue]
      split <;> exact hsame _ rfl rfl rfl
    · exact nomatch hact
  | send sent =>
    obtain ⟨c, -, rfl⟩ := Option.map_eq_some_iff.1 hact
    rw [coreSend]
    split
    · split <;> exact hsame _ rfl rfl rfl
    · exact hsame _ rfl rfl rfl
  | sendPlain sent =>
    rw [act] at hact
    split at hact
    · exact Option.some.inj hact ▸ hs
    · exact nomatch hact
  | popBack i =>
    obtain ⟨c, hc, rfl⟩ := Option.map_eq_some_iff.1 hact
    exact popBack_proper hs (hC c hc)
  | startBatching ok =>
    obtain rfl := Option.some.inj hact
    split
    · exact hsame _ rfl rfl rfl
    · exact hs
  | commitBatching => exact Option.some.inj hact ▸ hsame _ rfl rfl rfl
  | coreCommit r =>
    rw [act] at hact
    split at hact
    · exact nomatch hact
    · obtain rfl := Option.some.inj hact
      cases r <;> exact hsame _ rfl rfl rfl
  | abortBatching => exact Option.some.inj hact ▸ abortBatching_proper hs hC
  | coreAbort ok =>
    rw [act] at hact
    split at hact
    · exact nomatch hact
    · obtain rfl := Option.some.inj hact
      rw [coreAbort]
      split <;> exact hsame _ rfl rfl rfl
  | lookUp kind reqId =>
    obtain rfl := Option.some.inj hact
    rw [lookUp]
    split <;> exact hsame _ rfl rfl rfl
  | front i =>
    obtain ⟨l, -, rfl⟩ := Option.map_eq_some_iff.1 hact
    exact front_proper hs hC
  | popFront i =>
    obtain ⟨kind, -, rfl⟩ := Option.map_eq_some_iff.1 hact
    exact popFront_proper hs hC
  | answer i =>
    obtain ⟨a, ha, rfl⟩ := Option.map_eq_some_iff.1 hact
    exact answer_proper hs (hC a ha)
  | appendTo => exact Option.some.inj hact ▸ hsame _ rfl rfl rfl
  | clean canceled => exact Option.some.inj hact ▸ hsame _ rfl rfl rfl
  | cleanNext i =>
    obtain ⟨c, -, rfl⟩ := Option.map_eq_some_iff.1 hact
    exact cleanNext_proper hs

/-! ### Runs -/

/-- **The invariant.** -/
structure Sound (s : AsyncHandler D) : Prop where
  booked : s.Booked
  lined : s.Lined
  proper : s.Proper

theorem initial_sound : (initial D).Sound where
  booked := by
    simp [Booked, books, initial]
  lined := ⟨fun _ ↦ rfl, by simp [queues, initial, ticketsOf, InLine], List.nodup_nil,
    fun _ hr ↦ absurd hr List.not_mem_nil⟩
  proper := ⟨fun _ hp ↦ absurd hp List.not_mem_nil, fun _ hx ↦ absurd hx List.not_mem_nil, rfl⟩

theorem step_sound (hs : s.Sound) (a : Action κ) (hC : s.Orderly a) (hstep : s.step a = some t) :
    t.Sound := by
  rw [step, hs.proper.noPanic] at hstep
  exact ⟨act_booked hs.booked a hstep, act_lined hs.booked hs.lined a hC hstep,
    act_proper hs.proper a hC hstep⟩

theorem Sound.oneOutcome (hs : s.Sound) : s.OneOutcome where
  ownEntry := hs.proper.ownEntry
  once := hs.booked.count
  called := hs.proper.called
  order := by
    have hnodup : s.order.Nodup := hs.lined.nodup.sublist (List.sublist_append_left _ _)
    have hwire : s.wire.Sublist s.order := by
      rw [order, List.append_assoc]
      exact List.sublist_append_left _ _
    have hqueue : (ticketsOf (D.elems s.qCallback)).Sublist (ticketsOf s.queues) :=
      (List.sublist_append_left _ _).map _
    exact (hs.lined.line.of_sublist hqueue).to_sublist hnodup hwire
  noPanic := hs.proper.noPanic

end AsyncHandler

end SocketPro.Go
