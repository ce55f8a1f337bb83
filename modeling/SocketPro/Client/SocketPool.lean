import SocketPro.Foundation.Scan
import Mathlib.Data.List.Infix
import Mathlib.Order.WellFounded

/-!
# Handler selection

`Seek`, `SeekByQueue()` and `SeekByQueue(name)` of `CSocketPool`: three scans over
`m_mapSocketHandler`, whose entries come in any order. A scan runs under the lock of the pool and
sees each socket in one state.

**`Seek`** goes by the number of pending requests, and on a tie by the bytes sent: whatever the order,
the handler found has the fewest (`seek_sound`).

**`SeekByQueue()`** prefers fewer messages, and it prefers a connected socket to one that is not. The
two rules are put side by side, so that a socket without a connection takes the place of a connected
one as soon as it has fewer messages: the preference is not transitive, and the order decides
(`bestQueue_iff`).

**`SeekByQueue(name)`** compares the end of the queue's file name with the name of the file that the
queue would have. The file of another queue ends so, too, if its name ends with the name that is
looked for (`named_iff`).
-/

namespace SocketPro.Client

open Scan

/-- `tagConnectionState`. -/
inductive ConnectionState
  | csClosed
  | csConnecting
  | csSslShaking
  | csClosing
  | csConnected
  | csSwitched
deriving DecidableEq, Repr

/-- The order of `tagConnectionState`. -/
def ConnectionState.toNat : ConnectionState → ℕ
  | csClosed => 0
  | csConnecting => 1
  | csSslShaking => 2
  | csClosing => 3
  | csConnected => 4
  | csSwitched => 5

/-- What the core answers about the client queue of a socket. -/
structure ClientQueue where
  IsAvailable : Bool
  IsSecure : Bool
  GetJobSize : ℕ
  GetMessageCount : ℕ
  GetQueueFileName : List Char
  /-- The name that the queue was started under. -/
  qName : List Char
deriving DecidableEq

/-- What the core answers about a socket. -/
structure CClientSocket where
  GetConnectionState : ConnectionState
  IsConnected : Bool
  GetCountOfRequestsInQueue : ℕ
  GetBytesSent : ℕ
  GetClientQueue : ClientQueue
deriving DecidableEq

/-- An entry of `m_mapSocketHandler`: a handler and its socket. -/
structure PHandler where
  handler : ℕ
  GetSocket : CClientSocket
deriving DecidableEq

namespace PHandler

variable (h : PHandler)

/-- The requests that `Seek` counts. -/
def pending : ℕ :=
  let cq := h.GetSocket.GetClientQueue
  if cq.IsAvailable then cq.GetMessageCount else h.GetSocket.GetCountOfRequestsInQueue

/-- The socket is switched to its service. -/
def switched : Bool := ¬ h.GetSocket.GetConnectionState.toNat < ConnectionState.csSwitched.toNat

/-- The queue is available and in no job. -/
def outOfJob : Bool :=
  h.GetSocket.GetClientQueue.IsAvailable ∧ h.GetSocket.GetClientQueue.GetJobSize = 0

def connected : Bool := h.GetSocket.IsConnected

def messages : ℕ := h.GetSocket.GetClientQueue.GetMessageCount

end PHandler

/-- The rounds of `Seek`: whether `h` is dropped for `it`. -/
def seekPrefers (h it : PHandler) : Bool :=
  let count0 := h.pending
  let count1 := it.pending
  if count0 > count1 then true
  else if count0 = count1 then
    let sent0 := h.GetSocket.GetBytesSent
    let sent1 := it.GetSocket.GetBytesSent
    sent0 ≥ sent1
  else false

/-- `Seek`. -/
def Seek (m_mapSocketHandler : List PHandler) : Option PHandler :=
  scan seekPrefers (m_mapSocketHandler.filter PHandler.switched)

/-- The rounds of `SeekByQueue()`. -/
def queuePrefers (h it : PHandler) : Bool :=
  let count0 := h.messages
  let count1 := it.messages
  count0 > count1 ∨ (it.connected ∧ ¬ h.connected)

/-- `SeekByQueue()`. -/
def SeekByQueue (m_mapSocketHandler : List PHandler) : Option PHandler :=
  scan queuePrefers (m_mapSocketHandler.filter PHandler.outOfJob)

/-- The name of a queue's file, as `SeekByQueue(name)` puts it together. -/
def rawName (appName qn : List Char) (secure : Bool) : List Char :=
  qn ++ '_' :: appName ++ (if secure then "_1.mqc".toList else "_0.mqc".toList)

/-- The places from `pos` down. -/
def rfindFrom (s t : List Char) : ℕ → Option ℕ
  | 0 => if t.isPrefixOf s then some 0 else none
  | pos + 1 => if t.isPrefixOf (s.drop (pos + 1)) then some (pos + 1) else rfindFrom s t pos

/-- `rfind`: the last place where a text is found. -/
def rfind (s t : List Char) : Option ℕ :=
  if t.length ≤ s.length then rfindFrom s t (s.length - t.length) else none

/-- The test of one queue in `SeekByQueue(name)`. Without a place, `pos + lenRaw` is `lenRaw - 1`,
which is not `len`. -/
def fileNameTest (appName qn : List Char) (cq : ClientQueue) : Bool :=
  let rawName := rawName appName qn cq.IsSecure
  let queueFileName := cq.GetQueueFileName
  let len := queueFileName.length
  let lenRaw := rawName.length
  if lenRaw > len then false
  else
    match rfind queueFileName rawName with
    | some pos => pos = 0 ∨ pos + lenRaw = len
    | none => false

/-- A round of `SeekByQueue(name)`: whether the handler is returned. -/
def nameTest (appName qn : List Char) (it : PHandler) : Bool :=
  let cq := it.GetSocket.GetClientQueue
  cq.IsAvailable && fileNameTest appName qn cq

/-- `SeekByQueue(queueName)`. -/
def SeekByQueueName (appName : List Char) (m_mapSocketHandler : List PHandler)
    (qn : List Char) : Option PHandler :=
  if qn.length = 0 then none else m_mapSocketHandler.find? (nameTest appName qn)

/-! ### What is asked of them -/

/-- (a) The queue of the handler that is found was started under the name, and one is found if there
is such a queue. -/
structure Named (appName : List Char) (m : List PHandler) (qn : List Char) : Prop where
  exact : ∀ r, SeekByQueueName appName m qn = some r → r.GetSocket.GetClientQueue.qName = qn
  complete : (∃ e ∈ m, e.GetSocket.GetClientQueue.IsAvailable ∧
    e.GetSocket.GetClientQueue.qName = qn) → SeekByQueueName appName m qn ≠ none

/-- (b) A handler is found if there is an available queue outside of a job. It is connected if any of
them is, and has the fewest messages of those with its connection state. -/
structure BestQueue (m : List PHandler) : Prop where
  none_iff : SeekByQueue m = none ↔ ∀ e ∈ m, e.outOfJob = false
  best : ∀ r, SeekByQueue m = some r → r ∈ m ∧ r.outOfJob ∧
    ((∃ e ∈ m, e.outOfJob ∧ e.connected) → r.connected) ∧
    ∀ e ∈ m, e.outOfJob → e.connected = r.connected → r.messages ≤ e.messages

/-- (c) A switched handler is found if there is one, with the fewest pending requests. -/
structure LeastPending (m : List PHandler) : Prop where
  none_iff : Seek m = none ↔ ∀ e ∈ m, e.switched = false
  least : ∀ r, Seek m = some r → r ∈ m ∧ r.switched ∧ ∀ e ∈ m, e.switched → r.pending ≤ e.pending

/-! ### Seek -/

/-- **`Seek` finds the fewest pending requests** in every order. -/
theorem seek_sound (m : List PHandler) : LeastPending m where
  none_iff := by
    rw [Seek, scan_eq_none_iff, List.filter_eq_nil_iff]
    simp only [Bool.not_eq_true]
  least := by
    intro r hr
    have hmem := List.mem_filter.1 (mem_of_scan hr)
    refine ⟨hmem.1, hmem.2, fun e he hswitched ↦ ?_⟩
    have hfollows : Follows seekPrefers PHandler.pending (m.filter PHandler.switched) := by
      intro h _ x _
      simp only [seekPrefers]
      split_ifs with hpref hcount <;> simp_all
      omega
    exact scan_le hfollows hr e (List.mem_filter.2 ⟨he, hswitched⟩)

/-! ### SeekByQueue() -/

/-- A connected queue with the fewest messages of the connected ones. -/
def LeastConnected (l : List PHandler) (e : PHandler) : Prop :=
  e ∈ l ∧ e.connected ∧ ∀ x ∈ l, x.connected → e.messages ≤ x.messages

/-- The queues that the scan looks at. -/
abbrev candidates (m : List PHandler) : List PHandler := m.filter PHandler.outOfJob

/-- **No least connected queue is lost.** If a queue without a connection that has fewer messages
comes behind one, another one comes behind that queue. -/
def Undisturbed (m : List PHandler) : Prop :=
  ∀ front d back, candidates m = front ++ d :: back → d.connected = false →
    ∀ e ∈ front, LeastConnected (candidates m) e → d.messages < e.messages →
      ∃ e' ∈ back, LeastConnected (candidates m) e'

section

variable {m l front back : List PHandler} {e r : PHandler}

theorem bestQueue_iff_candidates :
    BestQueue m ↔ ∀ r, scan queuePrefers (candidates m) = some r →
      ((∃ e ∈ candidates m, e.connected) → r.connected) ∧
      ∀ e ∈ candidates m, e.connected = r.connected → r.messages ≤ e.messages := by
  simp only [List.mem_filter, and_assoc]
  constructor
  · intro h r hr
    obtain ⟨-, -, hconnected, hfewest⟩ := h.best r hr
    exact ⟨hconnected, fun e he ↦ hfewest e he.1 he.2⟩
  · intro h
    refine ⟨?_, fun r hr ↦ ?_⟩
    · rw [SeekByQueue, scan_eq_none_iff, List.filter_eq_nil_iff]
      simp only [Bool.not_eq_true]
    · have hmem := List.mem_filter.1 (mem_of_scan hr)
      exact ⟨hmem.1, hmem.2, (h r hr).1, fun e he hout ↦ (h r hr).2 e ⟨he, hout⟩⟩

/-- There is one if any queue is connected. -/
theorem exists_leastConnected (h : ∃ e ∈ l, e.connected) : ∃ e, LeastConnected l e := by
  obtain ⟨e, he, hleast⟩ :=
    (measure PHandler.messages).wf.has_min {e | e ∈ l ∧ e.connected} h
  exact ⟨e, he.1, he.2, fun x hx hconnected ↦ Nat.le_of_not_lt (hleast x ⟨hx, hconnected⟩)⟩

/-- Behind a least connected queue, one with as few messages is kept. -/
theorem kept_at_least (hl : l = front ++ e :: back) (he : LeastConnected l e) :
    ∃ h, h.connected ∧ h.messages = e.messages ∧
      scan queuePrefers l = scanFrom queuePrefers (some h) back := by
  have hsplit : scan queuePrefers l =
      scanFrom queuePrefers (keep queuePrefers (scan queuePrefers front) e) back := by
    rw [hl, scan, scanFrom_append, scanFrom_cons]
    rfl
  cases hfront : scan queuePrefers front with
  | none => exact ⟨e, he.2.1, rfl, by rw [hsplit, hfront]; rfl⟩
  | some h =>
    by_cases hpref : queuePrefers h e
    · exact ⟨e, he.2.1, rfl, by rw [hsplit, hfront, keep, if_pos hpref]⟩
    · have hmem : h ∈ l := hl ▸ List.mem_append_left _ (mem_of_scan hfront)
      simp only [queuePrefers, decide_eq_true_eq, not_or, not_and, not_not] at hpref
      have hconnected := hpref.2 he.2.1
      have hle := he.2.2 h hmem hconnected
      refine ⟨h, hconnected, by omega, ?_⟩
      rw [hsplit, hfront, keep, if_neg]
      simp only [queuePrefers, decide_eq_true_eq, not_or, not_and, not_not]
      exact hpref

/-- Without a connection the scan goes by the number of messages. -/
theorem follows_messages (hnone : ¬ ∃ e ∈ l, e.connected) :
    Follows queuePrefers PHandler.messages l := by
  intro h hh x hx
  have hx' : ¬ x.connected := fun hc ↦ hnone ⟨x, hx, hc⟩
  simp only [queuePrefers, hx', false_and, or_false, decide_eq_true_eq, Bool.false_eq_true]
  split <;> omega

/-- **When the best queue is found.** When no least connected queue is lost. -/
theorem bestQueue_iff (m : List PHandler) : BestQueue m ↔ Undisturbed m := by
  rw [bestQueue_iff_candidates]
  constructor
  · intro hbest front d back hl hd e he hleast hless
    by_contra hnone
    -- The last least connected queue, with `d` behind it.
    obtain ⟨A, e₀, F, rfl, hleast₀, hF⟩ :=
      exists_last (l := front) ⟨e, he, hleast⟩
    have hB : ∀ x ∈ F ++ d :: back, ¬ LeastConnected (candidates m) x := by
      intro x hx hx'
      rcases List.mem_append.1 hx with hx | hx
      · exact hF x hx hx'
      rcases List.mem_cons.1 hx with rfl | hx
      · exact absurd (hd.symm.trans hx'.2.1) Bool.false_ne_true
      · exact hnone ⟨x, hx, hx'⟩
    have hl' : candidates m = A ++ e₀ :: (F ++ d :: back) := by
      rw [hl, List.append_assoc, List.cons_append]
    obtain ⟨h, hconnected, hmessages, hscan⟩ := kept_at_least hl' hleast₀
    rcases @scan_from _ queuePrefers h (F ++ d :: back) with ⟨-, hstays⟩ | ⟨r, hr, hkept⟩
    · have hpref := hstays d (List.mem_append_right _ List.mem_cons_self)
      have heq : e.messages ≤ e₀.messages := hleast.2.2 e₀ hleast₀.1 hleast₀.2.1
      simp only [queuePrefers, decide_eq_false_iff_not, not_or] at hpref
      omega
    · obtain ⟨hrconnected, hrfewest⟩ := hbest r (hscan.trans hkept)
      have hrc := hrconnected ⟨e, hleast.1, hleast.2.1⟩
      refine hB r hr ⟨hl' ▸ List.mem_append_right _ (List.mem_cons_of_mem _ hr), hrc, ?_⟩
      exact fun x hx hxc ↦ hrfewest x hx (hxc.trans hrc.symm)
  · intro hundisturbed r hr
    by_cases hconn : ∃ e ∈ candidates m, e.connected
    · obtain ⟨A, e, B, hl, hleast, hB⟩ := exists_last (l := candidates m)
        ((exists_leastConnected hconn).imp fun e he ↦ ⟨he.1, he⟩)
      obtain ⟨h, hconnected, hmessages, hscan⟩ := kept_at_least hl hleast
      have hstays : scanFrom queuePrefers (some h) B = some h := by
        refine scanFrom_of_forall fun x hx ↦ ?_
        obtain ⟨B₁, B₂, rfl⟩ := List.append_of_mem hx
        have hxl : x ∈ candidates m := hl ▸ List.mem_append_right _ (List.mem_cons_of_mem _ hx)
        simp only [queuePrefers, hconnected, not_true_eq_false, and_false, or_false,
          decide_eq_false_iff_not, Nat.not_lt]
        by_contra hless
        cases hxc : x.connected with
        | true =>
          have hle := hleast.2.2 x hxl hxc
          omega
        | false =>
          obtain ⟨e', he', hleast'⟩ := hundisturbed (A ++ e :: B₁) x B₂
            (by rw [hl, List.append_assoc, List.cons_append]) hxc e
            (List.mem_append_right _ List.mem_cons_self) hleast (by omega)
          exact hB e' (List.mem_append_right _ (List.mem_cons_of_mem _ he')) hleast'
      obtain rfl : h = r := Option.some.inj (hstays.symm.trans (hscan.symm.trans hr))
      refine ⟨fun _ ↦ hconnected, fun x hx hxc ↦ ?_⟩
      rw [hmessages]
      exact hleast.2.2 x hx (hxc.trans hconnected)
    · refine ⟨fun h ↦ absurd h hconn, fun e he _ ↦ ?_⟩
      exact scan_le (follows_messages hconn) hr e he

end

/-! ### SeekByQueue(name) -/

/-- What the core is relied on for: the file of an available queue is named after it, with or without
a directory in front. -/
def NamesFiles (appName : List Char) (m : List PHandler) : Prop :=
  ∀ e ∈ m, e.GetSocket.GetClientQueue.IsAvailable → ∃ dir,
    e.GetSocket.GetClientQueue.GetQueueFileName =
      dir ++ rawName appName e.GetSocket.GetClientQueue.qName e.GetSocket.GetClientQueue.IsSecure

/-- **No other queue comes first.** A queue that passes the test under another name comes behind one
that was started under the name. The empty name is not looked for. -/
structure NameFirst (appName : List Char) (m : List PHandler) (qn : List Char) : Prop where
  nonempty : qn = [] → ∀ e ∈ m, e.GetSocket.GetClientQueue.IsAvailable →
    e.GetSocket.GetClientQueue.qName ≠ []
  first : qn ≠ [] → ∀ front e back, m = front ++ e :: back →
    nameTest appName qn e → e.GetSocket.GetClientQueue.qName ≠ qn →
      ∃ e' ∈ front, e'.GetSocket.GetClientQueue.IsAvailable ∧
        e'.GetSocket.GetClientQueue.qName = qn

section

variable {appName qn dir s t : List Char} {m : List PHandler}

theorem rfindFrom_append (dir t : List Char) :
    rfindFrom (dir ++ t) t dir.length = some dir.length := by
  have hprefix : t.isPrefixOf ((dir ++ t).drop dir.length) = true := by
    rw [List.drop_left]
    exact List.isPrefixOf_iff_prefix.2 List.prefix_rfl
  cases hn : dir.length with
  | zero =>
    rw [hn] at hprefix
    exact if_pos hprefix
  | succ n =>
    rw [hn] at hprefix
    exact if_pos hprefix

/-- A text at the end is found there. -/
theorem rfind_append (dir t : List Char) : rfind (dir ++ t) t = some dir.length := by
  rw [rfind, List.length_append, if_pos (Nat.le_add_left _ _), Nat.add_sub_cancel]
  exact rfindFrom_append dir t

/-- **Every queue whose path ends with the name passes the test.** -/
theorem fileNameTest_of_suffix {cq : ClientQueue}
    (hfile : cq.GetQueueFileName = dir ++ rawName appName cq.qName cq.IsSecure)
    (hsuffix : qn <:+ dir ++ cq.qName) : fileNameTest appName qn cq := by
  obtain ⟨p, hp⟩ := hsuffix
  have hraw : cq.GetQueueFileName = p ++ rawName appName qn cq.IsSecure := by
    rw [hfile, rawName, rawName, List.append_assoc, ← List.append_assoc, ← hp]
    simp only [List.append_assoc]
  have hlength := congrArg List.length hraw
  rw [List.length_append] at hlength
  rw [fileNameTest, if_neg (by omega), hraw, rfind_append]
  simp only [List.length_append, or_true, decide_true]

/-- The queue that is looked for passes it. -/
theorem nameTest_of_name (hfiles : NamesFiles appName m) {e : PHandler} (he : e ∈ m)
    (havailable : e.GetSocket.GetClientQueue.IsAvailable)
    (hname : e.GetSocket.GetClientQueue.qName = qn) : nameTest appName qn e := by
  obtain ⟨dir, hfile⟩ := hfiles e he havailable
  exact Bool.and_eq_true_iff.2
    ⟨havailable, fileNameTest_of_suffix hfile (hname ▸ List.suffix_append _ _)⟩

/-- **When the name is met.** When no other queue that passes the test comes first. -/
theorem named_iff (hfiles : NamesFiles appName m) :
    Named appName m qn ↔ NameFirst appName m qn := by
  by_cases hempty : qn = []
  · subst hempty
    have hnone : SeekByQueueName appName m [] = none := if_pos rfl
    constructor
    · intro h
      refine ⟨fun _ e he havailable hname ↦ ?_, fun hne ↦ absurd rfl hne⟩
      exact h.complete ⟨e, he, havailable, hname⟩ hnone
    · intro h
      constructor
      · intro r hr
        exact nomatch hnone.symm.trans hr
      · rintro ⟨e, he, havailable, hname⟩
        exact absurd hname (h.nonempty rfl e he havailable)
  · have hseek : SeekByQueueName appName m qn = m.find? (nameTest appName qn) :=
      if_neg fun h ↦ hempty (List.length_eq_zero_iff.1 h)
    constructor
    · intro h
      refine ⟨fun h ↦ absurd h hempty, fun _ front e back hm htest hname ↦ ?_⟩
      by_contra hfront
      -- The first queue that passes is `e` or stands before it, and has the name.
      cases hfound : SeekByQueueName appName m qn with
      | none =>
        rw [hseek, List.find?_eq_none] at hfound
        exact hfound e (hm ▸ List.mem_append_right _ List.mem_cons_self) htest
      | some r =>
        have hr := h.exact r hfound
        rw [hseek, hm, List.find?_append] at hfound
        cases hbefore : front.find? (nameTest appName qn) with
        | none =>
          rw [hbefore, Option.none_or, List.find?_cons_of_pos htest] at hfound
          exact hname (Option.some.inj hfound ▸ hr)
        | some r' =>
          rw [hbefore, Option.some_or] at hfound
          obtain rfl := Option.some.inj hfound
          have hpass := List.find?_some hbefore
          exact hfront ⟨r', List.mem_of_find?_eq_some hbefore,
            (Bool.and_eq_true_iff.1 hpass).1, hr⟩
    · intro h
      constructor
      · intro r hr
        rw [hseek, List.find?_eq_some_iff_append] at hr
        obtain ⟨htest, front, back, hm, hnone⟩ := hr
        by_contra hname
        obtain ⟨e', he', havailable', hname'⟩ := h.first hempty front r back hm htest hname
        have htest' := nameTest_of_name hfiles (hm ▸ List.mem_append_left _ he') havailable' hname'
        have hnot := hnone e' he'
        rw [htest'] at hnot
        exact absurd hnot (by decide)
      · rintro ⟨e, he, havailable, hname⟩ hnone
        rw [hseek, List.find?_eq_none] at hnone
        exact hnone e he (nameTest_of_name hfiles he havailable hname)

end

/-! ### The three of them -/

/-- **The selection is sound**: (a), (b) and (c). -/
structure SelectionSound (appName : List Char) (m : List PHandler) (qn : List Char) : Prop where
  named : Named appName m qn
  best : BestQueue m
  least : LeastPending m

/-- A handler with the queue `name` in `/q/`. -/
def handlerOf (handler : ℕ) (name : String) (connected : Bool) (messages : ℕ) : PHandler where
  handler := handler
  GetSocket :=
    { GetConnectionState := if connected then .csSwitched else .csClosed
      IsConnected := connected
      GetCountOfRequestsInQueue := 0
      GetBytesSent := 0
      GetClientQueue :=
        { IsAvailable := true
          IsSecure := false
          GetJobSize := 0
          GetMessageCount := messages
          GetQueueFileName := "/q/".toList ++ rawName "app".toList name.toList false
          qName := name.toList } }

theorem namesFiles_of_handlerOf {m : List PHandler}
    (hm : ∀ e ∈ m, ∃ handler name connected messages,
      e = handlerOf handler name connected messages) : NamesFiles "app".toList m := by
  intro e he _
  obtain ⟨handler, name, connected, messages, rfl⟩ := hm e he
  exact ⟨"/q/".toList, rfl⟩

end SocketPro.Client
