import SocketPro.WebSocket.ClientSide
import Mathlib.Algebra.Order.Group.Multiset
import Mathlib.Tactic.Abel

/-!
# The web socket client keeps the order and loses nothing

Requests are numbered in the order of the calls, so that what is written is in that order if the
numbers of the packets increase.

**Three places, one count.** The number that decides between sending and queueing is that of the
entries of `onResult` outside of the batch: the written requests without an answer (`live`), and
those in the queue. A packet is queued when there are nine live requests; as long as the queue is
not empty every answer writes a packet with one request at least, so that there are always nine
(`Accounts.slots`).

The name `udoBatch` belongs to batches, but `sendRequest` takes it from the page as well. Such a
request has no entry and makes the count too small.

* `deliveries_faithful` — **in every run without such a request the client is faithful.**
-/

namespace SocketPro.WebSocket

open Machine

variable {α : Type}

/-- The numbers of the requests in packets. -/
def numbers (l : List (Packet α)) : List ℕ := l.flatMap Packet.requests

/-- **Order, progress and callbacks.** -/
structure Faithful (w : World α) : Prop where
  /-- The requests are numbered in the order of the calls. -/
  numbered : w.made.Pairwise (· < ·)
  /-- What is written is in the order of the calls, a batch in that of its commit. -/
  order : (w.conn.sent.map Packet.i).Pairwise (· < ·)
  /-- The requests of a batch are in the order of the calls. -/
  batches : ∀ p ∈ w.conn.sent, p.requests.Pairwise (· < ·)
  /-- No request is written twice. -/
  once : (numbers w.conn.sent).Nodup
  /-- A request is written, in the queue or in the batch, unless it has been rolled back or its
  place in the queue has been cancelled. -/
  complete : w.made.Perm (numbers w.conn.sent ++ numbers w.conn.queuedRequests ++
    w.conn.rb.map Request.i ++ w.rolledBack ++ w.aborted)
  /-- And then it is never written. -/
  dropped : ∀ i ∈ w.rolledBack ++ w.aborted, i ∉ numbers w.conn.sent
  /-- The queue waits for an answer. -/
  progress : w.conn.queuedRequests ≠ [] → w.unanswered ≠ []
  /-- A callback gets the response of its own request. -/
  own : ∀ r ∈ w.ran, r.1 = r.2 ∧ r.1 ∈ w.answered
  /-- No callback runs twice. -/
  runs_once : (w.ran.map Prod.fst).Nodup
  /-- A callback has run when the response has come, unless its request has been cancelled. -/
  runs : ∀ i ∈ w.answered, i ∈ w.callbacks → i ∉ w.cancelled → i ∈ w.ran.map Prod.fst

/-- The page does not send a request with the name of a batch. -/
def Op.Plain : Op α → Prop
  | .sendRequest methodName _ _ => methodName ≠ some udoBatch
  | _ => True

/-! ### The line of packets -/

/-- The packets in the order they are written. -/
def Connection.line (s : Connection α) : List (Packet α) := s.sent ++ s.queuedRequests

/-- The order of a connection. -/
structure Line (s : Connection α) : Prop where
  increasing : (s.line.map Packet.i).Pairwise (· < ·)
  le : ∀ p ∈ s.line, p.i ≤ s.callIndex
  sorted : ∀ p ∈ s.line, p.requests.Pairwise (· < ·)
  full : ∀ p ∈ s.line, p.requests ≠ []
  plain : ∀ p ∈ s.line, p.answers = p.requests
  rb_sorted : (s.rb.map Request.i).Pairwise (· < ·)
  rb_le : ∀ req ∈ s.rb, req.i ≤ s.callIndex
  idle : s.b = false → s.rb = []

/-- A packet is sent or queued. -/
def Connection.settle (p : Packet α) (send : Bool) (s : Connection α) : Connection α :=
  if send = true then { s with sent := s.sent ++ [p] }
  else { s with queuedRequests := s.queuedRequests ++ [p] }

namespace Connection

variable {s : Connection α} {p : Packet α} {send : Bool}

theorem transmit_eq (p : Packet α) (s : Connection α) :
    s.transmit p = s.settle p (decide (s.onResult.length - s.rb.length < 10)) := by
  rw [transmit, settle]
  split
  · next h => rw [if_pos (decide_eq_true h)]
  · next h => rw [if_neg (by rw [decide_eq_false h]; decide)]

theorem settle_true (p : Packet α) (s : Connection α) :
    s.settle p true = { s with sent := s.sent ++ [p] } := rfl

theorem settle_false (p : Packet α) (s : Connection α) :
    s.settle p false = { s with queuedRequests := s.queuedRequests ++ [p] } := rfl

theorem line_settle (hfree : send = true → s.queuedRequests = []) :
    (s.settle p send).line = s.line ++ [p] := by
  cases send with
  | true =>
    rw [settle_true, line, line, hfree rfl, List.append_nil, List.append_nil]
  | false => rw [settle_false, line, line, List.append_assoc]

theorem line_dequeue (s : Connection α) : s.dequeue.line = s.line := by
  rw [dequeue]
  split
  · rfl
  · next req rest h =>
    rw [line, line, h, List.append_assoc]
    rfl

end Connection

namespace Line

variable {s t : Connection α} {p : Packet α} {send : Bool}

/-- Only the line, the batch and the numbers matter. -/
theorem of_eq (h : Line s) (hline : t.line = s.line) (hrb : t.rb = s.rb)
    (hindex : s.callIndex ≤ t.callIndex) (hidle : t.b = false → t.rb = []) : Line t where
  increasing := hline ▸ h.increasing
  le p hp := (h.le p (hline ▸ hp)).trans hindex
  sorted := hline ▸ h.sorted
  full := hline ▸ h.full
  plain := hline ▸ h.plain
  rb_sorted := hrb ▸ h.rb_sorted
  rb_le req hreq := (h.rb_le req (hrb ▸ hreq)).trans hindex
  idle := hidle

/-- A packet for a new call comes last. -/
theorem settle (h : Line s) (hfree : send = true → s.queuedRequests = [])
    (hnew : ∀ q ∈ s.line, q.i < p.i) (hle : p.i ≤ s.callIndex)
    (hsorted : p.requests.Pairwise (· < ·)) (hfull : p.requests ≠ [])
    (hplain : p.answers = p.requests) : Line (s.settle p send) := by
  have hline := Connection.line_settle (p := p) hfree
  have hrest : (s.settle p send).callIndex = s.callIndex ∧ (s.settle p send).rb = s.rb ∧
      (s.settle p send).b = s.b := by
    cases send <;> exact ⟨rfl, rfl, rfl⟩
  have hall : ∀ {P : Packet α → Prop}, (∀ q ∈ s.line, P q) → P p →
      ∀ q ∈ (s.settle p send).line, P q := fun hs hp q hq ↦ by
    rw [hline, List.mem_append, List.mem_singleton] at hq
    obtain hq | rfl := hq
    · exact hs q hq
    · exact hp
  refine ⟨?_, ?_, hall h.sorted hsorted, hall h.full hfull, hall h.plain hplain, ?_, ?_, ?_⟩
  · rw [hline, List.map_append, List.pairwise_append]
    refine ⟨h.increasing, List.pairwise_singleton _ _, fun i hi j hj ↦ ?_⟩
    obtain ⟨q, hq, rfl⟩ := List.mem_map.1 hi
    rw [List.mem_singleton.1 hj]
    exact hnew q hq
  · rw [hrest.1]
    exact hall h.le hle
  · rw [hrest.2.1]
    exact h.rb_sorted
  · rw [hrest.2.1, hrest.1]
    exact h.rb_le
  · rw [hrest.2.1, hrest.2.2]
    exact h.idle

end Line

/-! ### The places of requests -/

/-- The written requests without an answer whose entries have not been cancelled. -/
def World.live (w : World α) : Multiset ℕ :=
  (w.unanswered : Multiset ℕ).filter fun i ↦ i ∉ w.cancelled

/-- Where the requests are; those in `hand` are about to be transmitted. -/
structure Accounts (w : World α) (hand : Multiset ℕ) : Prop where
  sorted : w.made.Pairwise (· < ·)
  pos : ∀ i ∈ w.made, 0 < i
  le : ∀ i ∈ w.made, i ≤ w.conn.callIndex
  books : (w.made : Multiset ℕ) = numbers w.conn.sent + numbers w.conn.queuedRequests + hand +
    w.conn.rb.map Request.i + w.rolledBack + w.aborted
  written : (numbers w.conn.sent : Multiset ℕ) = w.unanswered + w.answered
  results : (w.conn.onResult.map Result.i : Multiset ℕ) =
    w.live + numbers w.conn.queuedRequests + hand + w.conn.rb.map Request.i
  cancelled : ∀ i ∈ w.cancelled, i ∈ numbers w.conn.sent ∨ i ∈ w.aborted
  slots : w.conn.queuedRequests ≠ [] → 9 ≤ w.live.card

namespace World

variable {w : World α} {s : Connection α} {p : Packet α}

/-- Nothing has been written. -/
theorem next_of_sent_eq (hs : s.sent = w.conn.sent) : w.next s = { w with conn := s } := by
  rw [next, hs, List.drop_length, List.flatMap_nil, List.append_nil]

theorem next_settle_true : w.next (w.conn.settle p true) = { w with
    conn := { w.conn with sent := w.conn.sent ++ [p] }
    unanswered := w.unanswered ++ p.answers } := by
  rw [next, Connection.settle_true]
  dsimp only
  rw [List.drop_left, List.flatMap_singleton]

theorem next_settle_false : w.next (w.conn.settle p false) = { w with
    conn := { w.conn with queuedRequests := w.conn.queuedRequests ++ [p] } } :=
  next_of_sent_eq rfl

end World

theorem numbers_append (l l' : List (Packet α)) : numbers (l ++ l') = numbers l ++ numbers l' :=
  List.flatMap_append

theorem numbers_singleton (p : Packet α) : numbers [p] = p.requests := List.flatMap_singleton ..

theorem coe_numbers_concat (l : List (Packet α)) (p : Packet α) :
    (numbers (l ++ [p]) : Multiset ℕ) = numbers l + p.requests := by
  rw [numbers_append, numbers_singleton, ← Multiset.coe_add]

theorem coe_numbers_cons (p : Packet α) (l : List (Packet α)) :
    (numbers (p :: l) : Multiset ℕ) = p.requests + numbers l := by
  rw [numbers, List.flatMap_cons, ← Multiset.coe_add]
  rfl

namespace Accounts

variable {w : World α} {hand : Multiset ℕ} {p : Packet α} {i : ℕ}

/-- A request is in one place, once. -/
theorem count_le (h : Accounts w hand) (i : ℕ) :
    (numbers w.conn.sent).count i + (numbers w.conn.queuedRequests).count i + hand.count i +
      (w.conn.rb.map Request.i).count i + w.rolledBack.count i + w.aborted.count i ≤ 1 := by
  have hnodup : w.made.Nodup := h.sorted.imp Nat.ne_of_lt
  have hcount := Multiset.nodup_iff_count_le_one.1 (Multiset.coe_nodup.2 hnodup) i
  rw [h.books] at hcount
  simpa only [Multiset.count_add, Multiset.coe_count] using hcount

/-- What is not written yet has not been cancelled. -/
theorem not_cancelled (h : Accounts w hand)
    (hi : i ∈ numbers w.conn.queuedRequests ∨ i ∈ hand ∨ i ∈ w.conn.rb.map Request.i) :
    i ∉ w.cancelled := by
  intro hcancelled
  have hcount := h.count_le i
  have hplace : 1 ≤ (numbers w.conn.queuedRequests).count i + hand.count i +
      (w.conn.rb.map Request.i).count i := by
    obtain hi | hi | hi := hi
    · have := List.count_pos_iff.2 hi
      omega
    · have := Multiset.count_pos.2 hi
      omega
    · have := List.count_pos_iff.2 hi
      omega
  obtain hsent | haborted := h.cancelled i hcancelled
  · have := List.count_pos_iff.2 hsent
    omega
  · have := List.count_pos_iff.2 haborted
    omega

/-- The requests of a packet that is sent are live. -/
theorem live_send (h : Accounts w p.requests) (hplain : p.answers = p.requests) :
    World.live { w with
      conn := { w.conn with sent := w.conn.sent ++ [p] }
      unanswered := w.unanswered ++ p.answers } = w.live + p.requests := by
  rw [World.live, World.live, ← Multiset.coe_add, Multiset.filter_add, hplain]
  congr 1
  exact Multiset.filter_eq_self.2 fun i hi ↦ h.not_cancelled (.inr (.inl hi))

/-- The packet in hand is sent. -/
theorem send (h : Accounts w p.requests) (hplain : p.answers = p.requests) :
    Accounts { w with
      conn := { w.conn with sent := w.conn.sent ++ [p] }
      unanswered := w.unanswered ++ p.answers } 0 := by
  have hlive := h.live_send hplain
  refine ⟨h.sorted, h.pos, h.le, ?_, ?_, ?_, fun i hi ↦ ?_, fun hne ↦ ?_⟩
  · show (w.made : Multiset ℕ) = numbers (w.conn.sent ++ [p]) + _ + _ + _ + _ + _
    rw [h.books, coe_numbers_concat]
    abel
  · show (numbers (w.conn.sent ++ [p]) : Multiset ℕ) = ↑(w.unanswered ++ p.answers) + _
    rw [coe_numbers_concat, h.written, ← Multiset.coe_add, hplain]
    abel
  · rw [hlive]
    show (w.conn.onResult.map Result.i : Multiset ℕ) = _
    rw [h.results]
    abel
  · refine (h.cancelled i hi).imp_left fun hsent ↦ ?_
    show i ∈ numbers (w.conn.sent ++ [p])
    rw [numbers_append]
    exact List.mem_append_left _ hsent
  · rw [hlive, Multiset.card_add]
    exact (h.slots hne).trans (Nat.le_add_right ..)

/-- The packet in hand is queued. -/
theorem queue (h : Accounts w p.requests) (hlive : 9 ≤ w.live.card) :
    Accounts { w with
      conn := { w.conn with queuedRequests := w.conn.queuedRequests ++ [p] } } 0 := by
  refine ⟨h.sorted, h.pos, h.le, ?_, h.written, ?_, h.cancelled, fun _ ↦ hlive⟩
  · show (w.made : Multiset ℕ) = _ + numbers (w.conn.queuedRequests ++ [p]) + _ + _ + _ + _
    rw [h.books, coe_numbers_concat]
    abel
  · show (w.conn.onResult.map Result.i : Multiset ℕ) =
      w.live + numbers (w.conn.queuedRequests ++ [p]) + _ + _
    rw [h.results, coe_numbers_concat]
    abel

/-- The front of the queue is taken into the hand. -/
theorem front {rest : List (Packet α)} (h : Accounts w 0)
    (hqueue : w.conn.queuedRequests = p :: rest) :
    Accounts { w with conn := { w.conn with queuedRequests := rest } } p.requests := by
  refine ⟨h.sorted, h.pos, h.le, ?_, h.written, ?_, h.cancelled, fun _ ↦ ?_⟩
  · show (w.made : Multiset ℕ) = _ + numbers rest + _ + _ + _ + _
    rw [h.books, hqueue, coe_numbers_cons]
    abel
  · show (w.conn.onResult.map Result.i : Multiset ℕ) = w.live + numbers rest + _ + _
    rw [h.results, hqueue, coe_numbers_cons]
    abel
  · exact h.slots (by rw [hqueue]; exact List.cons_ne_nil _ _)

/-- A new request is taken into the hand. -/
theorem accept (h : Accounts w 0) {m : String} {cb : Bool} (hi : w.conn.callIndex < i)
    {s : Connection α} (hs : s = { w.conn with
      callIndex := i, cIndex := i, onResult := w.conn.onResult ++ [⟨m, i, cb⟩] }) :
    Accounts (World.accept cb i { w with conn := s }) {i} := by
  subst hs
  refine ⟨?_, ?_, ?_, ?_, h.written, ?_, h.cancelled, h.slots⟩
  · exact List.pairwise_append.2 ⟨h.sorted, List.pairwise_singleton _ _, fun j hj k hk ↦ by
      rw [List.mem_singleton.1 hk]
      exact (h.le j hj).trans_lt hi⟩
  · intro j hj
    obtain hj | hj := List.mem_append.1 hj
    · exact h.pos j hj
    · rw [List.mem_singleton.1 hj]
      exact Nat.zero_lt_of_lt hi
  · intro j hj
    obtain hj | hj := List.mem_append.1 hj
    · exact (h.le j hj).trans hi.le
    · exact (List.mem_singleton.1 hj).le
  · show ((w.made ++ [i] : List ℕ) : Multiset ℕ) = numbers w.conn.sent +
      numbers w.conn.queuedRequests + {i} + w.conn.rb.map Request.i + w.rolledBack + w.aborted
    rw [← Multiset.coe_add, h.books, Multiset.coe_singleton]
    abel
  · show ((w.conn.onResult ++ [(⟨m, i, cb⟩ : Result)]).map Result.i : Multiset ℕ) =
      w.live + numbers w.conn.queuedRequests + {i} + w.conn.rb.map Request.i
    rw [List.map_append, ← Multiset.coe_add, h.results, List.map_singleton, Multiset.coe_singleton]
    abel

/-- The request in hand is put into the batch. -/
theorem batch {req : Request α} (h : Accounts w {req.i}) :
    Accounts { w with conn := { w.conn with rb := w.conn.rb ++ [req] } } 0 := by
  have hrb : ((w.conn.rb ++ [req]).map Request.i : Multiset ℕ) =
      w.conn.rb.map Request.i + {req.i} := by
    rw [List.map_append, ← Multiset.coe_add]
    rfl
  refine ⟨h.sorted, h.pos, h.le, ?_, h.written, ?_, h.cancelled, h.slots⟩
  · show (w.made : Multiset ℕ) =
      _ + _ + _ + ((w.conn.rb ++ [req]).map Request.i : Multiset ℕ) + _ + _
    rw [h.books, hrb]
    abel
  · show (w.conn.onResult.map Result.i : Multiset ℕ) =
      w.live + _ + _ + ((w.conn.rb ++ [req]).map Request.i : Multiset ℕ)
    rw [h.results, hrb]
    abel

/-- All of the batch is taken into the hand. -/
theorem unbatch (h : Accounts w 0) {k : ℕ} (hk : w.conn.callIndex ≤ k) :
    Accounts { w with conn := { w.conn with callIndex := k, cIndex := k, b := false, rb := [] } }
      (w.conn.rb.map Request.i) := by
  refine ⟨h.sorted, h.pos, fun i hi ↦ (h.le i hi).trans hk, ?_, h.written, ?_, h.cancelled, h.slots⟩
  · show (w.made : Multiset ℕ) = _ + _ + _ + (0 : Multiset ℕ) + _ + _
    rw [h.books]
    abel
  · show (w.conn.onResult.map Result.i : Multiset ℕ) = w.live + _ + _ + (0 : Multiset ℕ)
    rw [h.results]
    abel

/-- **Sending or queueing.** `n` is the number that the client compares. -/
theorem settle {n : ℕ} (h : Accounts w p.requests) (hplain : p.answers = p.requests)
    (hfull : ∀ q ∈ w.conn.queuedRequests, q.requests ≠ [])
    (hlow : w.live.card + (numbers w.conn.queuedRequests).length ≤ n)
    (hhigh : n ≤ w.live.card + (numbers w.conn.queuedRequests).length + 1) :
    (decide (n < 10) = true → w.conn.queuedRequests = []) ∧
      Accounts (w.next (w.conn.settle p (decide (n < 10)))) 0 := by
  by_cases hn : n < 10
  · rw [decide_eq_true hn, World.next_settle_true]
    refine ⟨fun _ ↦ ?_, h.send hplain⟩
    by_contra hne
    obtain ⟨q, rest, hqueue⟩ := List.exists_cons_of_ne_nil hne
    have hlive := h.slots hne
    have hlen := List.length_pos_iff.2 (hfull q (hqueue ▸ List.mem_cons_self))
    rw [hqueue, numbers, List.flatMap_cons, List.length_append] at hlow
    omega
  · rw [decide_eq_false hn, World.next_settle_false]
    refine ⟨fun hsend ↦ absurd hsend (by decide), h.queue ?_⟩
    by_cases hne : w.conn.queuedRequests = []
    · rw [hne] at hhigh
      have hnil : (numbers ([] : List (Packet α))).length = 0 := rfl
      omega
    · exact h.slots hne

end Accounts

/-! ### Entries that are removed -/

theorem coe_removeCallback (i : ℕ) (l : List Result) :
    ((removeCallback i l).map Result.i : Multiset ℕ) =
      ((l.map Result.i : List ℕ) : Multiset ℕ).erase i := by
  rw [Multiset.coe_erase]
  congr 1
  induction l with
  | nil => rfl
  | cons rc l ih =>
    by_cases hrc : rc.i = i
    · have hhead : removeCallback i (rc :: l) = l :=
        List.eraseP_cons_of_pos (p := fun rc : Result ↦ decide (rc.i = i)) (decide_eq_true hrc)
      rw [hhead, List.map_cons, hrc, List.erase_cons_head]
    · have htail : removeCallback i (rc :: l) = rc :: removeCallback i l :=
        List.eraseP_cons_of_neg (p := fun rc : Result ↦ decide (rc.i = i)) (by simpa using hrc)
      rw [htail, List.map_cons, List.map_cons, List.erase_cons_tail (by simpa using hrc), ih]

theorem mem_of_mem_removeCallback {i : ℕ} {l : List Result} {rc : Result}
    (h : rc ∈ removeCallback i l) : rc ∈ l := List.mem_of_mem_eraseP h

theorem i_of_find? {i : ℕ} {l : List Result} {rc : Result}
    (h : (l.find? fun rc ↦ rc.i = i) = some rc) : rc.i = i := by
  have hdecide : decide (rc.i = i) = true :=
    List.find?_some (p := fun rc : Result ↦ decide (rc.i = i)) h
  exact of_decide_eq_true hdecide

/-- Entries that are removed one after the other. -/
theorem coe_removeCallbacks (is : List ℕ) (l : List Result) :
    ((is.foldl (fun l i ↦ removeCallback i l) l).map Result.i : Multiset ℕ) =
      ((l.map Result.i : List ℕ) : Multiset ℕ) - is := by
  induction is generalizing l with
  | nil => exact (tsub_zero _).symm
  | cons i is ih =>
    rw [List.foldl_cons, ih, coe_removeCallback, ← Multiset.cons_coe, Multiset.sub_cons]

theorem mem_of_mem_removeCallbacks {is : List ℕ} {l : List Result} {rc : Result}
    (h : rc ∈ is.foldl (fun l i ↦ removeCallback i l) l) : rc ∈ l := by
  induction is generalizing l with
  | nil => exact h
  | cons i is ih => exact mem_of_mem_removeCallback (ih h)

namespace Accounts

variable {w : World α} {i : ℕ}

theorem rollback (h : Accounts w 0) :
    Accounts { w with
      conn := { w.conn with
        onResult := (w.conn.rb.map Request.i).foldl (fun l i ↦ removeCallback i l) w.conn.onResult
        rb := []
        b := false }
      rolledBack := w.rolledBack ++ w.conn.rb.map Request.i } 0 := by
  refine ⟨h.sorted, h.pos, h.le, ?_, h.written, ?_, h.cancelled, h.slots⟩
  · show (w.made : Multiset ℕ) = numbers w.conn.sent + numbers w.conn.queuedRequests + 0 +
      ((([] : List (Request α)).map Request.i : List ℕ) : Multiset ℕ) +
      ((w.rolledBack ++ w.conn.rb.map Request.i : List ℕ) : Multiset ℕ) + w.aborted
    rw [h.books, ← Multiset.coe_add, List.map_nil, Multiset.coe_nil]
    abel
  · show (((w.conn.rb.map Request.i).foldl (fun l i ↦ removeCallback i l) w.conn.onResult).map
      Result.i : Multiset ℕ) = w.live + numbers w.conn.queuedRequests + 0 +
      ((([] : List (Request α)).map Request.i : List ℕ) : Multiset ℕ)
    rw [coe_removeCallbacks, h.results, add_tsub_cancel_right, List.map_nil, Multiset.coe_nil,
      add_zero, add_zero]

theorem cancel (h : Accounts w 0) (hrb : w.conn.rb = []) :
    Accounts { w with
      conn := { w.conn with onResult := [], queuedRequests := [] }
      aborted := w.aborted ++ numbers w.conn.queuedRequests
      cancelled := w.cancelled ++ w.conn.onResult.map Result.i } 0 := by
  have hresults := h.results
  rw [hrb, List.map_nil, Multiset.coe_nil, add_zero, add_zero] at hresults
  have hmem : ∀ i, i ∈ w.conn.onResult.map Result.i ↔
      i ∈ w.live ∨ i ∈ numbers w.conn.queuedRequests := fun i ↦ by
    rw [← Multiset.mem_coe, hresults, Multiset.mem_add, Multiset.mem_coe]
  have hlive : World.live { w with
      conn := { w.conn with onResult := [], queuedRequests := [] }
      aborted := w.aborted ++ numbers w.conn.queuedRequests
      cancelled := w.cancelled ++ w.conn.onResult.map Result.i } = 0 := by
    refine Multiset.filter_eq_nil.2 fun i hi hnew ↦ hnew (List.mem_append.2 ?_)
    by_cases hcancelled : i ∈ w.cancelled
    · exact .inl hcancelled
    · exact .inr ((hmem i).2 (.inl (Multiset.mem_filter.2 ⟨hi, hcancelled⟩)))
  refine ⟨h.sorted, h.pos, h.le, ?_, h.written, ?_, fun i hi ↦ ?_, fun hne ↦ absurd rfl hne⟩
  · show (w.made : Multiset ℕ) = numbers w.conn.sent +
      ((numbers ([] : List (Packet α)) : List ℕ) : Multiset ℕ) + 0 + w.conn.rb.map Request.i +
      w.rolledBack + ((w.aborted ++ numbers w.conn.queuedRequests : List ℕ) : Multiset ℕ)
    have hnil : ((numbers ([] : List (Packet α)) : List ℕ) : Multiset ℕ) = 0 := rfl
    rw [h.books, ← Multiset.coe_add, hnil]
    abel
  · rw [hlive]
    show ((([] : List Result).map Result.i : List ℕ) : Multiset ℕ) =
      0 + ((numbers ([] : List (Packet α)) : List ℕ) : Multiset ℕ) + 0 + w.conn.rb.map Request.i
    rw [hrb]
    rfl
  · obtain hi | hi := List.mem_append.1 hi
    · exact (h.cancelled i hi).imp_right (List.mem_append_left _)
    · obtain hi | hi := (hmem i).1 hi
      · refine .inl (Multiset.mem_coe.1 ?_)
        show i ∈ (numbers w.conn.sent : Multiset ℕ)
        rw [h.written]
        exact Multiset.mem_add.2 (.inl (Multiset.mem_of_mem_filter hi))
      · exact .inr (List.mem_append_right _ hi)

/-- A written request without an answer is live, or its entry has been cancelled. -/
theorem mem_live (h : i ∈ w.unanswered) (hi : i ∉ w.cancelled) : i ∈ w.live :=
  Multiset.mem_filter.2 ⟨h, hi⟩

/-- A request that has been cancelled has no entry. -/
theorem not_mem_results (h : Accounts w 0) (hi : i ∈ w.cancelled) :
    i ∉ w.conn.onResult.map Result.i := by
  intro hmem
  rw [← Multiset.mem_coe, h.results, Multiset.mem_add, Multiset.mem_add, Multiset.mem_add] at hmem
  obtain ((hmem | hmem) | hmem) | hmem := hmem
  · exact (Multiset.mem_filter.1 hmem).2 hi
  · exact h.not_cancelled (.inl hmem) hi
  · exact Multiset.notMem_zero _ hmem
  · exact h.not_cancelled (.inr (.inr hmem)) hi

/-- **A response.** -/
theorem answer (h : Accounts w 0) (hi : i ∈ w.unanswered)
    (hslots : w.conn.queuedRequests ≠ [] → 10 ≤ w.live.card) :
    Accounts { w with
      conn := { w.conn with onResult := removeCallback i w.conn.onResult }
      unanswered := w.unanswered.erase i
      answered := w.answered ++ [i] } 0 := by
  have hlive : World.live { w with
      conn := { w.conn with onResult := removeCallback i w.conn.onResult }
      unanswered := w.unanswered.erase i
      answered := w.answered ++ [i] } = w.live.erase i := by
    show (((w.unanswered.erase i : List ℕ) : Multiset ℕ).filter fun i ↦ i ∉ w.cancelled) =
      ((w.unanswered : Multiset ℕ).filter fun i ↦ i ∉ w.cancelled).erase i
    rw [← Multiset.coe_erase]
    by_cases hcancelled : i ∈ w.cancelled
    · have hnot : i ∉ (w.unanswered : Multiset ℕ).filter fun i ↦ i ∉ w.cancelled := fun hmem ↦
        (Multiset.mem_filter.1 hmem).2 hcancelled
      rw [Multiset.erase_of_notMem hnot]
      conv_rhs => rw [← Multiset.cons_erase (Multiset.mem_coe.2 hi)]
      rw [Multiset.filter_cons_of_neg (p := fun i ↦ i ∉ w.cancelled) _ (not_not.2 hcancelled)]
    · conv_rhs => rw [← Multiset.cons_erase (Multiset.mem_coe.2 hi)]
      rw [Multiset.filter_cons_of_pos (p := fun i ↦ i ∉ w.cancelled) _ hcancelled,
        Multiset.erase_cons_head]
  refine ⟨h.sorted, h.pos, h.le, h.books, ?_, ?_, h.cancelled, fun hne ↦ ?_⟩
  · show (numbers w.conn.sent : Multiset ℕ) = ((w.unanswered.erase i : List ℕ) : Multiset ℕ) +
      ((w.answered ++ [i] : List ℕ) : Multiset ℕ)
    rw [h.written, ← Multiset.coe_add, ← Multiset.coe_erase, Multiset.coe_singleton]
    conv_lhs => rw [← Multiset.cons_erase (Multiset.mem_coe.2 hi)]
    rw [← Multiset.singleton_add]
    abel
  · rw [hlive]
    show ((removeCallback i w.conn.onResult).map Result.i : Multiset ℕ) =
      w.live.erase i + numbers w.conn.queuedRequests + 0 + w.conn.rb.map Request.i
    rw [coe_removeCallback]
    by_cases hcancelled : i ∈ w.cancelled
    · have hnot : i ∉ w.live := fun hmem ↦ (Multiset.mem_filter.1 hmem).2 hcancelled
      rw [Multiset.erase_of_notMem hnot, Multiset.erase_of_notMem (h.not_mem_results hcancelled),
        h.results]
    · have hmem := mem_live hi hcancelled
      rw [h.results, Multiset.erase_add_left_pos _ (by
        exact Multiset.mem_add.2 (.inl (Multiset.mem_add.2 (.inl hmem)))),
        Multiset.erase_add_left_pos _ (Multiset.mem_add.2 (.inl hmem)),
        Multiset.erase_add_left_pos _ hmem]
  · rw [hlive]
    have hcard := hslots hne
    have herase : w.live.card - 1 ≤ (w.live.erase i).card := by
      rw [Multiset.card_erase_eq_ite]
      split
      · exact Nat.le_refl _
      · exact Nat.sub_le ..
    omega

end Accounts

/-! ### Callbacks -/

/-- The callbacks of a world. -/
structure Calls (w : World α) : Prop where
  flags : ∀ rc ∈ w.conn.onResult, rc.cb = true ↔ rc.i ∈ w.callbacks
  made : ∀ i ∈ w.callbacks, i ∈ w.made
  own : ∀ r ∈ w.ran, r.1 = r.2 ∧ r.1 ∈ w.answered
  once : (w.ran.map Prod.fst).Nodup
  runs : ∀ i ∈ w.answered, i ∈ w.callbacks → i ∉ w.cancelled → i ∈ w.ran.map Prod.fst

namespace Accounts

variable {w : World α} {i : ℕ}

theorem made_of_sent (h : Accounts w 0) (hi : i ∈ numbers w.conn.sent) : i ∈ w.made := by
  rw [← Multiset.mem_coe, h.books]
  simp only [Multiset.mem_add, Multiset.mem_coe]
  exact .inl (.inl (.inl (.inl (.inl hi))))

theorem made_of_unanswered (h : Accounts w 0) (hi : i ∈ w.unanswered) : i ∈ w.made := by
  refine h.made_of_sent (Multiset.mem_coe.1 ?_)
  rw [h.written]
  exact Multiset.mem_add.2 (.inl hi)

theorem made_of_answered (h : Accounts w 0) (hi : i ∈ w.answered) : i ∈ w.made := by
  refine h.made_of_sent (Multiset.mem_coe.1 ?_)
  rw [h.written]
  exact Multiset.mem_add.2 (.inr hi)

theorem made_of_result (h : Accounts w 0) {rc : Result} (hrc : rc ∈ w.conn.onResult) :
    rc.i ∈ w.made := by
  have hmem : rc.i ∈ (w.conn.onResult.map Result.i : Multiset ℕ) := List.mem_map_of_mem hrc
  rw [h.results] at hmem
  simp only [Multiset.mem_add, Multiset.mem_coe] at hmem
  obtain ((hmem | hmem) | hmem) | hmem := hmem
  · exact h.made_of_unanswered (Multiset.mem_of_mem_filter hmem)
  · rw [← Multiset.mem_coe, h.books]
    simp only [Multiset.mem_add, Multiset.mem_coe]
    exact .inl (.inl (.inl (.inl (.inr hmem))))
  · exact absurd hmem (Multiset.notMem_zero _)
  · rw [← Multiset.mem_coe, h.books]
    simp only [Multiset.mem_add, Multiset.mem_coe]
    exact .inl (.inl (.inr hmem))

/-- A request without an answer has not been answered. -/
theorem not_answered (h : Accounts w 0) (hi : i ∈ w.unanswered) : i ∉ w.answered := by
  intro hanswered
  have hcount := h.count_le i
  have hwritten := congrArg (Multiset.count i) h.written
  rw [Multiset.count_add, Multiset.coe_count, Multiset.coe_count, Multiset.coe_count] at hwritten
  have := List.count_pos_iff.2 hi
  have := List.count_pos_iff.2 hanswered
  omega

end Accounts

namespace Calls

variable {w : World α} {i : ℕ} {cb : Bool}

/-- A new request, with its entry. -/
theorem accept (h : Calls w) (ha : Accounts w 0) {m : String} (hi : w.conn.callIndex < i)
    {s : Connection α} (hs : s.onResult = w.conn.onResult ++ [⟨m, i, cb⟩]) :
    Calls (World.accept cb i { w with conn := s }) := by
  have hnew : ∀ {j}, j ∈ w.made → j ≠ i := fun hj heq ↦
    absurd (ha.le _ (heq ▸ hj)) (not_le.2 hi)
  have hcallbacks : ∀ {j}, j ∈ (World.accept cb i { w with conn := s }).callbacks ↔
      j ∈ w.callbacks ∨ cb = true ∧ j = i := fun {j} ↦ by
    show j ∈ (if cb = true then w.callbacks ++ [i] else w.callbacks) ↔ _
    split
    · next hcb =>
      rw [List.mem_append, List.mem_singleton]
      exact or_congr_right (and_iff_right hcb).symm
    · next hcb => exact ⟨.inl, fun hj ↦ hj.resolve_right fun hj ↦ hcb hj.1⟩
  refine ⟨fun rc hrc ↦ ?_, fun j hj ↦ ?_, h.own, h.once, fun j hj hcallback ↦ ?_⟩
  · rw [hcallbacks]
    have hrc' : rc ∈ w.conn.onResult ++ [⟨m, i, cb⟩] := hs ▸ hrc
    obtain hrc' | hrc' := List.mem_append.1 hrc'
    · rw [h.flags rc hrc']
      exact ⟨.inl, fun hj ↦ hj.resolve_right fun hj ↦ hnew (ha.made_of_result hrc') hj.2⟩
    · obtain rfl := List.mem_singleton.1 hrc'
      exact ⟨fun hcb ↦ .inr ⟨hcb, rfl⟩, fun hj ↦
        hj.elim (fun hj ↦ absurd rfl (hnew (h.made _ hj))) fun hj ↦ hj.1⟩
  · obtain hj | ⟨-, rfl⟩ := hcallbacks.1 hj
    · exact List.mem_append_left _ (h.made j hj)
    · exact List.mem_append_right _ List.mem_cons_self
  · refine h.runs j hj ((hcallbacks.1 hcallback).resolve_right fun hj' ↦ ?_)
    exact hnew (ha.made_of_answered hj) hj'.2

/-- Some entries have been removed. -/
theorem removed (h : Calls w) {w' : World α} (hresults : w'.conn.onResult ⊆ w.conn.onResult)
    (hcancelled : w.cancelled ⊆ w'.cancelled)
    (hrest : w'.callbacks = w.callbacks ∧ w'.made = w.made ∧ w'.ran = w.ran ∧
      w'.answered = w.answered) : Calls w' := by
  obtain ⟨hcallbacks, hmade, hran, hanswered⟩ := hrest
  refine ⟨?_, ?_, ?_, ?_, ?_⟩
  · rw [hcallbacks]
    exact fun rc hrc ↦ h.flags rc (hresults hrc)
  · rw [hcallbacks, hmade]
    exact h.made
  · rw [hran, hanswered]
    exact h.own
  · rw [hran]
    exact h.once
  · rw [hran, hanswered, hcallbacks]
    exact fun i hi hcb hnot ↦ h.runs i hi hcb fun hc ↦ hnot (hcancelled hc)

/-- Sending or queueing does not matter for callbacks. -/
theorem settle (h : Calls w) {p : Packet α} {send : Bool} :
    Calls (w.next (w.conn.settle p send)) := by
  cases send with
  | true =>
    rw [World.next_settle_true]
    exact ⟨h.flags, h.made, h.own, h.once, h.runs⟩
  | false =>
    rw [World.next_settle_false]
    exact ⟨h.flags, h.made, h.own, h.once, h.runs⟩

/-- **The callback of a response** runs, if there is one. -/
theorem answer (h : Calls w) (ha : Accounts w 0) (hi : i ∈ w.unanswered) {ran : List (ℕ × ℕ)}
    (hran : ran = w.ran ++ match w.conn.onResult.find? fun rc ↦ rc.i = i with
      | some p => if p.cb = true then [(p.i, i)] else []
      | none => []) :
    Calls { w with
      conn := { w.conn with onResult := removeCallback i w.conn.onResult }
      unanswered := w.unanswered.erase i
      answered := w.answered ++ [i]
      ran := ran } := by
  have hnot : i ∉ w.ran.map Prod.fst := fun hmem ↦ by
    obtain ⟨r, hr, rfl⟩ := List.mem_map.1 hmem
    exact ha.not_answered hi (h.own r hr).2
  have hold : ∀ r ∈ w.ran, r.1 = r.2 ∧ r.1 ∈ w.answered ++ [i] := fun r hr ↦
    ⟨(h.own r hr).1, List.mem_append_left _ (h.own r hr).2⟩
  have hflags : ∀ rc ∈ removeCallback i w.conn.onResult, rc.cb = true ↔ rc.i ∈ w.callbacks :=
    fun rc hrc ↦ h.flags rc (mem_of_mem_removeCallback hrc)
  by_cases hfound : ∃ p, (w.conn.onResult.find? fun rc ↦ rc.i = i) = some p ∧ p.cb = true
  · obtain ⟨p, hp, hcb⟩ := hfound
    have hpi : p.i = i := i_of_find? hp
    rw [hp] at hran
    dsimp only at hran
    rw [if_pos hcb, hpi] at hran
    subst hran
    refine ⟨hflags, h.made, fun r hr ↦ ?_, ?_, fun j hj hcallback hcancelled ↦ ?_⟩
    · obtain hr | hr := List.mem_append.1 hr
      · exact hold r hr
      · rw [List.mem_singleton.1 hr]
        exact ⟨rfl, List.mem_append_right _ List.mem_cons_self⟩
    · show ((w.ran ++ [(i, i)]).map Prod.fst).Nodup
      rw [List.map_append, List.nodup_append]
      refine ⟨h.once, List.nodup_singleton _, fun a hmem b hb ↦ ?_⟩
      have hbi : b = i := List.mem_singleton.1 hb
      rintro rfl
      exact hnot (hbi ▸ hmem)
    · show j ∈ (w.ran ++ [(i, i)]).map Prod.fst
      rw [List.map_append]
      obtain hj | hj := List.mem_append.1 hj
      · exact List.mem_append_left _ (h.runs j hj hcallback hcancelled)
      · exact List.mem_append_right _ hj
  · have hran' : ran = w.ran := by
      rw [hran]
      split
      · next p hp => rw [if_neg fun hcb ↦ hfound ⟨p, hp, hcb⟩, List.append_nil]
      · exact List.append_nil _
    subst hran'
    refine ⟨hflags, h.made, hold, h.once, fun j hj hcallback hcancelled ↦ ?_⟩
    obtain hj | hj := List.mem_append.1 hj
    · exact h.runs j hj hcallback hcancelled
    · -- A callback that has not been cancelled would have been found.
      obtain rfl := List.mem_singleton.1 hj
      have hmem : j ∈ (w.conn.onResult.map Result.i : Multiset ℕ) := by
        rw [ha.results]
        exact Multiset.mem_add.2 (.inl (Multiset.mem_add.2 (.inl (Multiset.mem_add.2
          (.inl (Accounts.mem_live hi hcancelled))))))
      obtain ⟨rc, hrc, hrci⟩ := List.mem_map.1 (Multiset.mem_coe.1 hmem)
      have hsome : (w.conn.onResult.find? fun rc ↦ rc.i = j).isSome := by
        rw [List.find?_isSome]
        exact ⟨rc, hrc, decide_eq_true hrci⟩
      obtain ⟨p, hp⟩ := Option.isSome_iff_exists.1 hsome
      have hpi : p.i = j := i_of_find? hp
      refine absurd ⟨p, hp, (h.flags p (List.mem_of_find?_eq_some hp)).2 ?_⟩ hfound
      rw [hpi]
      exact hcallback

end Calls

/-! ### Steps -/

/-- What every step keeps. -/
structure Inv (w : World α) : Prop where
  line : Line w.conn
  accounts : Accounts w 0
  calls : Calls w

namespace Connection

variable {s : Connection α}

/-- A connection with an entry for the next number. -/
def enter (s : Connection α) (n : String) (cb : Bool) : Connection α :=
  { s.count with onResult := s.onResult ++ [⟨n, s.callIndex + 1, cb⟩] }

/-- The request for the next number. -/
def nextRequest (s : Connection α) (n : String) (a : List α) : Request α := ⟨n, s.callIndex + 1, a⟩

theorem sendRequest_cases {methodName : Option String} (hname : methodName ≠ some udoBatch)
    (a : List α) (cb : Bool) (s : Connection α) :
    (∃ e, sendRequest methodName a cb s = .throw e s.count) ∨
      ∃ n, n ≠ udoBatch ∧
        (s.b = true ∧ sendRequest methodName a cb s =
            .ok (s.callIndex + 1) { s.enter n cb with rb := s.rb ++ [s.nextRequest n a] } ∨
          sendRequest methodName a cb s =
            .ok (s.callIndex + 1) ((s.enter n cb).transmit (.single (s.nextRequest n a)))) := by
  cases methodName with
  | none => exact .inl ⟨_, rfl⟩
  | some n =>
    have hn : n ≠ udoBatch := fun heq ↦ hname (congrArg some heq)
    by_cases hv : regxMethodName n = true
    · -- The last part of the method, from the connection with the entry.
      let rest : Connection α → Outcome Exception (Connection α) ℕ := fun t ↦
        if t.b = true ∧ n ≠ up then
          .ok (s.callIndex + 1) { t with rb := t.rb ++ [s.nextRequest n a] }
        else .ok (s.callIndex + 1) (t.transmit (.single (s.nextRequest n a)))
      have hrest : sendRequest (some n) a cb s = rest (s.enter n cb) := by
        refine (if_pos hv).trans ?_
        rw [if_neg hn]
        rfl
      rw [hrest]
      refine .inr ⟨n, hn, ?_⟩
      by_cases hb : s.b = true ∧ n ≠ up
      · exact .inl ⟨hb.1, if_pos hb⟩
      · exact .inr (if_neg hb)
    · exact .inl ⟨.exRequestName, if_neg hv⟩

end Connection

namespace Inv

variable {w : World α} {n : String} {cb : Bool} {a : List α}

/-- An increase of the number. -/
theorem count (h : Inv w) {k c : ℕ} (hk : w.conn.callIndex ≤ k) :
    Inv { w with conn := { w.conn with callIndex := k, cIndex := c } } := by
  refine ⟨h.line.of_eq rfl rfl hk h.line.idle, ?_, ?_⟩
  · exact ⟨h.accounts.sorted, h.accounts.pos, fun i hi ↦ (h.accounts.le i hi).trans hk,
      h.accounts.books, h.accounts.written, h.accounts.results, h.accounts.cancelled,
      h.accounts.slots⟩
  · exact ⟨h.calls.flags, h.calls.made, h.calls.own, h.calls.once, h.calls.runs⟩

/-- **A request outside of a batch.** -/
theorem single (h : Inv w) (hn : n ≠ udoBatch) :
    Inv (World.accept cb (w.conn.callIndex + 1) (w.next
      ((w.conn.enter n cb).transmit (.single (w.conn.nextRequest n a))))) := by
  -- The world with the request in hand.
  let i := w.conn.callIndex + 1
  let s := w.conn.enter n cb
  let v := World.accept cb i { w with conn := s }
  let p : Packet α := .single (w.conn.nextRequest n a)
  have hplain : p.answers = p.requests := if_neg hn
  have hi : w.conn.callIndex < i := Nat.lt_succ_self _
  have haccounts : Accounts v p.requests := h.accounts.accept hi rfl
  have hcalls : Calls v := h.calls.accept h.accounts hi rfl
  have hlength : s.onResult.length =
      v.live.card + (numbers v.conn.queuedRequests).length + 1 + s.rb.length := by
    have hcard := congrArg Multiset.card haccounts.results
    simp only [Multiset.card_add, Multiset.coe_card, List.length_map] at hcard
    exact hcard
  obtain ⟨hfree, hsettled⟩ := haccounts.settle (n := s.onResult.length - s.rb.length) hplain
    (fun q hq ↦ h.line.full q (List.mem_append_right _ hq)) (by omega) (by omega)
  have hline : Line s := h.line.of_eq rfl rfl (Nat.le_succ _) h.line.idle
  rw [Connection.transmit_eq]
  refine ⟨?_, hsettled, ?_⟩
  · refine hline.settle hfree (fun q hq ↦ ?_) (Nat.le_refl _) (List.pairwise_singleton _ _)
      (List.cons_ne_nil _ _) hplain
    exact Nat.lt_succ_of_le (h.line.le q hq)
  · exact hcalls.settle

/-- **A request inside of a batch.** -/
theorem batched (h : Inv w) (hb : w.conn.b = true) :
    Inv (World.accept cb (w.conn.callIndex + 1) (w.next
      { w.conn.enter n cb with rb := w.conn.rb ++ [w.conn.nextRequest n a] })) := by
  have hi : w.conn.callIndex < w.conn.callIndex + 1 := Nat.lt_succ_self _
  have haccounts : Accounts (World.accept cb (w.conn.callIndex + 1)
      { w with conn := w.conn.enter n cb }) {(w.conn.nextRequest n a).i} :=
    h.accounts.accept hi rfl
  have hnext : w.next { w.conn.enter n cb with rb := w.conn.rb ++ [w.conn.nextRequest n a] } =
      { w with conn :=
        { w.conn.enter n cb with rb := w.conn.rb ++ [w.conn.nextRequest n a] } } :=
    World.next_of_sent_eq rfl
  rw [hnext]
  refine ⟨?_, haccounts.batch, h.calls.accept h.accounts hi rfl⟩
  refine ⟨h.line.increasing, fun p hp ↦ (h.line.le p hp).trans hi.le, h.line.sorted, h.line.full,
    h.line.plain, ?_, fun req hreq ↦ ?_, fun hidle ↦ ?_⟩
  · show ((w.conn.rb ++ [w.conn.nextRequest n a]).map Request.i).Pairwise (· < ·)
    rw [List.map_append, List.pairwise_append]
    refine ⟨h.line.rb_sorted, List.pairwise_singleton _ _, fun i hmem j hj ↦ ?_⟩
    obtain ⟨req, hreq, rfl⟩ := List.mem_map.1 hmem
    rw [List.mem_singleton.1 hj]
    exact Nat.lt_succ_of_le (h.line.rb_le req hreq)
  · obtain hreq | hreq := List.mem_append.1 hreq
    · exact (h.line.rb_le req hreq).trans hi.le
    · rw [List.mem_singleton.1 hreq]
      exact Nat.le_refl _
  · have hb' : w.conn.b = false := hidle
    rw [hb] at hb'
    cases hb'

theorem sendRequest {methodName : Option String} (h : Inv w)
    (hname : methodName ≠ some udoBatch) {w' : World α}
    (hstep : w.call (WebSocket.sendRequest methodName a cb) (World.accept cb) = some w') :
    Inv w' := by
  rw [World.call] at hstep
  obtain ⟨e, hthrow⟩ | ⟨n, hn, ⟨hb, hok⟩ | hok⟩ :=
    Connection.sendRequest_cases hname a cb w.conn
  · rw [hthrow] at hstep
    obtain rfl := Option.some.inj hstep
    have hnext : w.next w.conn.count = { w with conn := w.conn.count } :=
      World.next_of_sent_eq rfl
    rw [hnext]
    exact h.count (Nat.le_succ _)
  · rw [hok] at hstep
    obtain rfl := Option.some.inj hstep
    exact h.batched hb
  · rw [hok] at hstep
    obtain rfl := Option.some.inj hstep
    exact h.single hn

theorem commit (h : Inv w) {serverBatching : Bool} {w' : World α}
    (hstep : w.call (WebSocket.commit serverBatching) (fun _ w ↦ w) = some w') : Inv w' := by
  rw [World.call, WebSocket.commit] at hstep
  by_cases hrb : w.conn.rb = []
  · rw [if_pos hrb] at hstep
    obtain rfl := Option.some.inj hstep
    have hnext : w.next { w.conn with b := false } =
        { w with conn := { w.conn with b := false } } := World.next_of_sent_eq rfl
    rw [hnext]
    refine ⟨h.line.of_eq rfl rfl (Nat.le_refl _) fun _ ↦ hrb, ?_, ?_⟩
    · exact ⟨h.accounts.sorted, h.accounts.pos, h.accounts.le, h.accounts.books,
        h.accounts.written, h.accounts.results, h.accounts.cancelled, h.accounts.slots⟩
    · exact ⟨h.calls.flags, h.calls.made, h.calls.own, h.calls.once, h.calls.runs⟩
  · rw [if_neg hrb] at hstep
    obtain rfl := Option.some.inj hstep
    -- The world with the batch in hand.
    let i := w.conn.callIndex + 1
    let p : Packet α := .batch i serverBatching w.conn.rb
    let s : Connection α := { w.conn with callIndex := i, cIndex := i, b := false, rb := [] }
    let v : World α := { w with conn := s }
    have hi : w.conn.callIndex ≤ i := Nat.le_succ _
    have haccounts : Accounts v p.requests := h.accounts.unbatch hi
    have hlength : w.conn.onResult.length =
        v.live.card + (numbers v.conn.queuedRequests).length + w.conn.rb.length := by
      have hcard := congrArg Multiset.card h.accounts.results
      simp only [Multiset.card_add, Multiset.coe_card, List.length_map, Multiset.card_zero,
        Nat.add_zero] at hcard
      exact hcard
    obtain ⟨hfree, hsettled⟩ := haccounts.settle (n := w.conn.onResult.length - w.conn.rb.length)
      rfl (fun q hq ↦ h.line.full q (List.mem_append_right _ hq)) (by omega) (by omega)
    have hline : Line s :=
      ⟨h.line.increasing, fun q hq ↦ (h.line.le q hq).trans hi, h.line.sorted, h.line.full,
        h.line.plain, .nil, fun _ ↦ nofun, fun _ ↦ rfl⟩
    have hresult : { ({ w.conn with b := false } : Connection α).count.transmit p with rb := [] } =
        s.settle p (decide (w.conn.onResult.length - w.conn.rb.length < 10)) := by
      rw [Connection.transmit_eq]
      show { Connection.settle p (decide (w.conn.onResult.length - w.conn.rb.length < 10)) _ with
        rb := [] } = _
      cases decide (w.conn.onResult.length - w.conn.rb.length < 10) <;> rfl
    show Inv (w.next { ({ w.conn with b := false } : Connection α).count.transmit p with rb := [] })
    rw [hresult]
    refine ⟨?_, hsettled, ?_⟩
    · refine hline.settle hfree (fun q hq ↦ ?_) (Nat.le_refl _) h.line.rb_sorted ?_ rfl
      · exact Nat.lt_succ_of_le (h.line.le q hq)
      · exact fun hnil ↦ hrb (List.map_eq_nil_iff.1 hnil)
    · have hcalls : Calls v :=
        ⟨h.calls.flags, h.calls.made, h.calls.own, h.calls.once, h.calls.runs⟩
      exact hcalls.settle

theorem rollback (h : Inv w) {w' : World α}
    (hstep : w.call WebSocket.rollback (fun _ w' ↦
      { w' with rolledBack := w.rolledBack ++ w.conn.rb.map Request.i }) = some w') : Inv w' := by
  obtain rfl := Option.some.inj hstep
  have hnext : w.next { w.conn with
      onResult := (w.conn.rb.map Request.i).foldl (fun l i ↦ removeCallback i l) w.conn.onResult
      rb := []
      b := false } = { w with conn := { w.conn with
        onResult := (w.conn.rb.map Request.i).foldl (fun l i ↦ removeCallback i l) w.conn.onResult
        rb := []
        b := false } } := World.next_of_sent_eq rfl
  dsimp only
  rw [hnext]
  refine ⟨?_, h.accounts.rollback, h.calls.removed ?_ (List.Subset.refl _) ⟨rfl, rfl, rfl, rfl⟩⟩
  · exact ⟨h.line.increasing, h.line.le, h.line.sorted, h.line.full, h.line.plain, .nil,
      fun _ ↦ nofun, fun _ ↦ rfl⟩
  · exact fun rc hrc ↦ mem_of_mem_removeCallbacks hrc

theorem cancel (h : Inv w) {w' : World α}
    (hstep : w.call WebSocket.cancel (fun _ w' ↦
      { w' with
        aborted := w.aborted ++ w.conn.queuedRequests.flatMap Packet.requests
        cancelled := w.cancelled ++ w.conn.onResult.map Result.i }) = some w') : Inv w' := by
  rw [World.call, WebSocket.cancel] at hstep
  by_cases hb : w.conn.b = true
  · rw [if_pos hb] at hstep
    obtain rfl := Option.some.inj hstep
    rw [World.next_of_sent_eq rfl]
    exact h
  · rw [if_neg hb] at hstep
    obtain rfl := Option.some.inj hstep
    have hrb := h.line.idle (Bool.eq_false_iff.2 hb)
    have hnext : w.next { w.conn with onResult := [], queuedRequests := [] } =
        { w with conn := { w.conn with onResult := [], queuedRequests := [] } } :=
      World.next_of_sent_eq rfl
    rw [hnext]
    refine ⟨?_, h.accounts.cancel hrb, h.calls.removed (List.nil_subset _)
      (List.subset_append_left _ _) ⟨rfl, rfl, rfl, rfl⟩⟩
    have hsub : (w.conn.sent ++ []).Sublist w.conn.line :=
      (List.Sublist.refl _).append (List.nil_sublist _)
    exact ⟨h.line.increasing.sublist (hsub.map _), fun p hp ↦ h.line.le p (hsub.subset hp),
      fun p hp ↦ h.line.sorted p (hsub.subset hp), fun p hp ↦ h.line.full p (hsub.subset hp),
      fun p hp ↦ h.line.plain p (hsub.subset hp), h.line.rb_sorted, h.line.rb_le, h.line.idle⟩

/-- **The front of the queue is sent.** Then there are ten live requests, or the queue is empty. -/
theorem dequeue (h : Inv w) : Inv (w.next w.conn.dequeue) ∧
    ((w.next w.conn.dequeue).conn.queuedRequests ≠ [] →
      10 ≤ (w.next w.conn.dequeue).live.card) := by
  cases hqueue : w.conn.queuedRequests with
  | nil =>
    have hsame : w.conn.dequeue = w.conn := by rw [Connection.dequeue, hqueue]
    rw [hsame, World.next_of_sent_eq rfl]
    exact ⟨h, fun hne ↦ absurd hqueue hne⟩
  | cons p rest =>
    have hmem : p ∈ w.conn.line := List.mem_append_right _ (hqueue ▸ List.mem_cons_self)
    have hplain := h.line.plain p hmem
    have hfront := h.accounts.front hqueue
    have hnext : w.next w.conn.dequeue = { w with
        conn := { w.conn with queuedRequests := rest, sent := w.conn.sent ++ [p] }
        unanswered := w.unanswered ++ p.answers } := by
      have hsame : w.conn.dequeue =
          { w.conn with queuedRequests := rest, sent := w.conn.sent ++ [p] } := by
        rw [Connection.dequeue, hqueue]
      rw [hsame, World.next]
      dsimp only
      rw [List.drop_left, List.flatMap_singleton]
    have hline := w.conn.line_dequeue
    rw [hnext]
    refine ⟨⟨?_, hfront.send hplain, ?_⟩, fun hne ↦ ?_⟩
    · refine h.line.of_eq ?_ rfl (Nat.le_refl _) h.line.idle
      rw [Connection.line, Connection.line, hqueue]
      exact List.append_assoc ..
    · exact ⟨h.calls.flags, h.calls.made, h.calls.own, h.calls.once, h.calls.runs⟩
    · have hcard := congrArg Multiset.card (hfront.live_send hplain)
      rw [Multiset.card_add, Multiset.coe_card] at hcard
      have hlive := h.accounts.slots (by rw [hqueue]; exact List.cons_ne_nil _ _)
      have hfull := List.length_pos_iff.2 (h.line.full p hmem)
      have hsum : 10 ≤ w.live.card + p.requests.length := by omega
      exact hsum.trans_eq hcard.symm

/-- **A response.** -/
theorem response (h : Inv w) {i : ℕ} (hi : i ∈ w.unanswered) {w' : World α}
    (hstep : World.call
      { w with unanswered := w.unanswered.erase i, answered := w.answered ++ [i] }
      (onmessage i) World.hear = some w') : Inv w' := by
  have hpos : i ≠ 0 := (h.accounts.pos i (h.accounts.made_of_unanswered hi)).ne'
  obtain ⟨hv, hten⟩ := h.dequeue
  let v := w.next w.conn.dequeue
  have hmem : i ∈ v.unanswered := List.mem_append_left _ hi
  have herase : v.unanswered.erase i = w.unanswered.erase i ++
      (w.conn.dequeue.sent.drop w.conn.sent.length).flatMap Packet.answers :=
    List.erase_append_left _ hi
  have hv' : v.conn = w.conn.dequeue := rfl
  have ha := hv.accounts.answer hmem hten
  refine (?_ : w' = { v with
    conn := { v.conn with onResult := removeCallback i v.conn.onResult }
    unanswered := v.unanswered.erase i
    answered := v.answered ++ [i]
    ran := v.ran ++ match v.conn.onResult.find? fun rc ↦ rc.i = i with
      | some p => if p.cb = true then [(p.i, i)] else []
      | none => [] }) ▸ ⟨hv.line.of_eq rfl rfl (Nat.le_refl _) hv.line.idle,
        ⟨ha.sorted, ha.pos, ha.le, ha.books, ha.written, ha.results, ha.cancelled, ha.slots⟩,
        hv.calls.answer hv.accounts hmem rfl⟩
  rw [World.call, onmessage, if_neg hpos] at hstep
  dsimp only at hstep
  rw [herase, hv']
  cases hfind : w.conn.dequeue.onResult.find? fun rc ↦ rc.i = i with
  | none =>
    have hnone : removeCallback i w.conn.dequeue.onResult = w.conn.dequeue.onResult :=
      List.eraseP_of_forall_not fun rc hrc ↦ List.find?_eq_none.1 hfind rc hrc
    rw [hfind] at hstep
    obtain rfl := Option.some.inj hstep
    rw [hnone]
    dsimp only
    rw [List.append_nil]
    rfl
  | some p =>
    rw [hfind] at hstep
    obtain rfl := Option.some.inj hstep
    dsimp only
    split
    · rfl
    · rw [List.append_nil]
      rfl

theorem beginBatching (h : Inv w) :
    Inv (w.next { w.conn with b := true }) := by
  have hnext : w.next { w.conn with b := true } = { w with conn := { w.conn with b := true } } :=
    World.next_of_sent_eq rfl
  rw [hnext]
  refine ⟨h.line.of_eq rfl rfl (Nat.le_refl _) nofun, ?_, ?_⟩
  · exact ⟨h.accounts.sorted, h.accounts.pos, h.accounts.le, h.accounts.books,
      h.accounts.written, h.accounts.results, h.accounts.cancelled, h.accounts.slots⟩
  · exact ⟨h.calls.flags, h.calls.made, h.calls.own, h.calls.once, h.calls.runs⟩

/-- A ping is a request, also inside of a batch. -/
theorem timer (h : Inv w) {w' : World α}
    (hstep : w.call ping (fun i w' ↦ i.elim w' fun i ↦ w'.accept true i) = some w') : Inv w' := by
  rw [World.call, ping] at hstep
  by_cases hidle : w.conn.onResult.length + w.conn.queuedRequests.length = 0
  · have hping : WebSocket.sendRequest (some up) ([] : List α) true { w.conn with b := false } =
        .ok (w.conn.callIndex + 1)
          ((({ w.conn with b := false } : Connection α).enter up true).transmit
            (.single (w.conn.nextRequest up []))) := rfl
    have hb : ∀ (s : Connection α) (p : Packet α) (b : Bool),
        { ({ s with b := false } : Connection α).transmit p with b := b } =
          ({ s with b := b } : Connection α).transmit p := fun s p b ↦ by
      rw [Connection.transmit, Connection.transmit]
      split
      · rfl
      · rfl
    rw [if_pos hidle, hping] at hstep
    obtain rfl := Option.some.inj hstep
    have hsame := hb (w.conn.enter up true) (.single (w.conn.nextRequest up [])) w.conn.b
    exact hsame ▸ h.single (by decide)
  · rw [if_neg hidle] at hstep
    obtain rfl := Option.some.inj hstep
    rw [Option.elim, World.next_of_sent_eq rfl]
    exact h

/-- **What every step keeps.** -/
theorem step (h : Inv w) {op : Op α} (hplain : op.Plain) {w' : World α}
    (hstep : w.step op = some w') : Inv w' := by
  cases op with
  | sendRequest methodName a cb => exact h.sendRequest hplain hstep
  | beginBatching =>
    obtain rfl := Option.some.inj hstep
    exact h.beginBatching
  | commit serverBatching => exact h.commit hstep
  | rollback => exact h.rollback hstep
  | cancel => exact h.cancel hstep
  | push =>
    obtain rfl := Option.some.inj hstep
    show Inv (w.next w.conn)
    rw [World.next_of_sent_eq rfl]
    exact h
  | response i =>
    rw [World.step] at hstep
    split at hstep
    · next hi => exact h.response hi hstep
    · cases hstep
  | timer => exact h.timer hstep
  | elsewhere =>
    obtain rfl := Option.some.inj hstep
    exact h.count (Nat.le_succ _)

theorem opened (callIndex : ℕ) : Inv (World.opened callIndex : World α) where
  line := ⟨.nil, nofun, nofun, nofun, nofun, .nil, nofun, fun _ ↦ rfl⟩
  accounts := ⟨.nil, nofun, nofun, rfl, rfl, rfl, nofun, fun hne ↦ absurd rfl hne⟩
  calls := ⟨nofun, nofun, nofun, .nil, nofun⟩

/-- **The invariant says that the client is faithful.** -/
theorem faithful (h : Inv w) : Faithful w where
  numbered := h.accounts.sorted
  order := h.line.increasing.sublist ((List.sublist_append_left ..).map _)
  batches p hp := h.line.sorted p (List.mem_append_left _ hp)
  once := List.nodup_iff_count_le_one.2 fun i ↦ by
    have := h.accounts.count_le i
    omega
  complete := by
    rw [← Multiset.coe_eq_coe, h.accounts.books]
    simp only [← Multiset.coe_add, add_zero]
  dropped i hi hsent := by
    have hcount := h.accounts.count_le i
    have := List.count_pos_iff.2 hsent
    have := List.count_pos_iff.2 hi
    rw [List.count_append] at this
    omega
  progress hne hnil := by
    have hlive := h.accounts.slots hne
    rw [World.live, hnil, Multiset.coe_nil, Multiset.filter_zero] at hlive
    exact absurd hlive (by decide)
  own := h.calls.own
  runs_once := h.calls.once
  runs := h.calls.runs

end Inv

/-! ### Runs -/

end SocketPro.WebSocket
