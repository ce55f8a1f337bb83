import SocketPro.Foundation.Run

/-!
# Programs with one lock and one condition

Threads call the methods of an object that has a lock and a condition. A method takes the lock, and
from there on it is cut where it waits for the condition and where it calls out with the lock held;
what it does between two cuts is one `body`. A thread that waits gives the lock back. It comes back by
a signal, for no reason, after a time-out or interrupted, and takes the lock again first.

`Proof` asks of each body that it keeps what the others rely on and leads to what its thread goes on
with; `good_of_within` concludes that all results are right in every state reached. What a signal
tells is known to a thread that it woke, and to no other.
-/

namespace Monitor

open Machine

/-- How a thread comes back from waiting. -/
inductive Wake
  | signalled
  | spurious
  | timedOut
  | interrupted
deriving DecidableEq, Repr

/-- What a body leads to: to wait, to call out for an answer, or to a result. -/
inductive Next (κ β ρ : Type)
  /-- A thread goes on by how it came back, if it can come back so. -/
  | wait (k : Wake → Option κ)
  | call (k : β → κ)
  | done (r : ρ)

/-- The points of a program, of which some start a method. -/
structure Program (σ κ β ρ : Type) where
  start : κ → Bool
  /-- What is done with the lock held: the new state, whether all are signalled, and what is next. -/
  body : κ → σ → σ × Bool × Next κ β ρ

/-- Where a thread is. -/
inductive Thread (κ β ρ : Type)
  | idle
  | entering (l : κ)
  | waiting (k : Wake → Option κ)
  | holding (l : κ)
  | calling (k : β → κ)
  | leaving (r : ρ)

structure State (ι σ κ β ρ : Type) where
  shared : σ
  owner : Option ι
  threads : ι → Thread κ β ρ
  /-- The results of the calls that have returned. -/
  log : List ρ

inductive Action (ι κ β : Type)
  | enter (i : ι) (l : κ)
  | acquire (i : ι)
  | perform (i : ι)
  | wake (i : ι) (w : Wake)
  | answer (i : ι) (b : β)
  | release (i : ι)

variable {ι σ κ β ρ : Type} [DecidableEq ι]

/-- A signal: it goes on to take the lock. -/
def Thread.signal : Thread κ β ρ → Thread κ β ρ
  | waiting k => match k .signalled with
    | some l => entering l
    | none => waiting k
  | t => t

/-- What a thread is after a body. -/
def Next.thread : Next κ β ρ → Thread κ β ρ
  | wait k => .waiting k
  | call k => .calling k
  | done r => .leaving r

/-- The lock is given back to wait. -/
def Next.owner (i : ι) : Next κ β ρ → Option ι
  | wait _ => none
  | _ => some i

variable (P : Program σ κ β ρ)

namespace State

variable (s : State ι σ κ β ρ)

/-- One thread moves. -/
def move (i : ι) (t : Thread κ β ρ) : State ι σ κ β ρ :=
  { s with threads := Function.update s.threads i t }

/-- A body of a thread that holds the lock. -/
def perform (i : ι) (l : κ) : State ι σ κ β ρ :=
  let (shared, signals, next) := P.body l s.shared
  let threads := if signals then fun j ↦ (s.threads j).signal else s.threads
  { s with
    shared := shared
    owner := next.owner i
    threads := Function.update threads i next.thread }

def step : Action ι κ β → Option (State ι σ κ β ρ)
  | .enter i l => match s.threads i with
    | .idle => if P.start l then some (s.move i (.entering l)) else none
    | _ => none
  | .acquire i => match s.owner, s.threads i with
    | none, .entering l => some { s.move i (.holding l) with owner := some i }
    | _, _ => none
  | .perform i => match s.threads i with
    | .holding l => some (s.perform P i l)
    | _ => none
  | .wake i w => match s.threads i with
    | .waiting k => if w = .signalled then none else (k w).map fun l ↦ s.move i (.entering l)
    | _ => none
  | .answer i b => match s.threads i with
    | .calling k => some (s.move i (.holding (k b)))
    | _ => none
  | .release i => match s.threads i with
    | .leaving r => some { s.move i .idle with owner := none, log := s.log ++ [r] }
    | _ => none

/-- Before the first call. -/
def initial (shared : σ) : State ι σ κ β ρ := ⟨shared, none, fun _ ↦ .idle, []⟩

end State

/-- A body is performed where it may be. -/
def Keeps (Allowed : κ → σ → Prop) (s : State ι σ κ β ρ) : Action ι κ β → Prop
  | .perform i => match s.threads i with
    | .holding l => Allowed l s.shared
    | _ => True
  | _ => True

instance {Allowed : κ → σ → Prop} [DecidableRel Allowed] :
    DecidableRel (Keeps Allowed : State ι σ κ β ρ → Action ι κ β → Prop)
  | s, .perform i => match h : s.threads i with
    | .holding l => decidable_of_iff (Allowed l s.shared) (by simp only [Keeps, h])
    | .idle | .entering _ | .waiting _ | .calling _ | .leaving _ =>
      .isTrue (by simp only [Keeps, h])
  | _, .enter .. | _, .acquire _ | _, .wake .. | _, .answer .. | _, .release _ => .isTrue trivial

/-! ### Safety -/

/-- A body leads to what its thread can go on with: after a wait others have had the lock. -/
def Next.Leads (Rely : σ → σ → Prop) (Pre : κ → σ → Prop) (Post : ρ → σ → Prop) (Told : σ → Prop)
    (t : σ) : Next κ β ρ → Prop
  | wait k => ∀ w l, k w = some l → ∀ u, Rely t u → (w = .signalled → Told u) → Pre l u
  | call k => ∀ b, Pre (k b) t
  | done r => Post r t

/-- What is to be shown of each body. -/
structure Proof (P : Program σ κ β ρ) where
  /-- Where a body may be performed. -/
  Allowed : κ → σ → Prop
  Inv : σ → Prop
  /-- What the threads rely on between two of their bodies. -/
  Rely : σ → σ → Prop
  /-- What holds before a body. -/
  Pre : κ → σ → Prop
  /-- What a result says of the state. -/
  Post : ρ → σ → Prop
  /-- What a signal tells. -/
  Told : σ → Prop
  refl : ∀ s, Rely s s
  trans : ∀ {s t u}, Rely s t → Rely t u → Rely s u
  pre_stable : ∀ {l s t}, Rely s t → Pre l s → Pre l t
  post_stable : ∀ {r s t}, Rely s t → Post r s → Post r t
  pre_start : ∀ {l s}, P.start l = true → Pre l s
  body : ∀ {l s t signals next}, Inv s → Pre l s → Allowed l s → P.body l s = (t, signals, next) →
    Inv t ∧ Rely s t ∧ (signals = true → Told t) ∧ next.Leads Rely Pre Post Told t

namespace Proof

variable {P} (H : Proof P)

/-- What is known of a thread. -/
def Knows (s : σ) : Thread κ β ρ → Prop
  | .idle => True
  | .entering l => H.Pre l s
  | .holding l => H.Pre l s
  | .waiting k => ∀ w l, k w = some l → ∀ u, H.Rely s u → (w = .signalled → H.Told u) → H.Pre l u
  | .calling k => ∀ b, H.Pre (k b) s
  | .leaving r => H.Post r s

/-- The invariant of all threads. -/
structure Good (s : State ι σ κ β ρ) : Prop where
  inv : H.Inv s.shared
  threads : ∀ i, H.Knows s.shared (s.threads i)
  log : ∀ r ∈ s.log, H.Post r s.shared

variable {H} {s t : State ι σ κ β ρ}

theorem Knows.stable {x y : σ} (h : H.Rely x y) {th : Thread κ β ρ} (hth : H.Knows x th) :
    H.Knows y th := by
  cases th with
  | idle => trivial
  | entering l => exact H.pre_stable h hth
  | holding l => exact H.pre_stable h hth
  | waiting k => exact fun w l hk u hu htold ↦ hth w l hk u (H.trans h hu) htold
  | calling k => exact fun b ↦ H.pre_stable h (hth b)
  | leaving r => exact H.post_stable h hth

/-- A thread that is signalled knows what the signal tells. -/
theorem Knows.signal {x : σ} {th : Thread κ β ρ} (hth : H.Knows x th) (htold : H.Told x) :
    H.Knows x th.signal := by
  cases th with
  | waiting k =>
    rw [Thread.signal]
    split
    · next l hl => exact hth .signalled l hl x (H.refl x) fun _ ↦ htold
    · exact hth
  | _ => exact hth

theorem knows_update {x : σ} {f : ι → Thread κ β ρ} (hf : ∀ j, H.Knows x (f j)) (i : ι)
    {th : Thread κ β ρ} (hth : H.Knows x th) (j : ι) : H.Knows x (Function.update f i th j) :=
  Function.forall_update_iff f (fun _ ↦ H.Knows x) |>.2 ⟨hth, fun j _ ↦ hf j⟩ j

theorem Good.perform (h : H.Good s) {i : ι} {l : κ} (hi : s.threads i = .holding l)
    (hallowed : H.Allowed l s.shared) :
    H.Good (s.perform P i l) ∧ H.Rely s.shared (s.perform P i l).shared := by
  have hpre : H.Knows s.shared (.holding l) := hi ▸ h.threads i
  rcases hbody : P.body l s.shared with ⟨x, signals, next⟩
  obtain ⟨hinv, hrely, htold, hnext⟩ := H.body h.inv hpre hallowed hbody
  have hall (j : ι) : H.Knows x (s.threads j) := (h.threads j).stable hrely
  have hthread : H.Knows x next.thread := by cases next <;> exact hnext
  simp only [State.perform, hbody]
  refine ⟨⟨hinv, knows_update (fun j ↦ ?_) i hthread, fun r hr ↦
    H.post_stable hrely (h.log r hr)⟩, hrely⟩
  split_ifs with hsignals
  · exact (hall j).signal (htold hsignals)
  · exact hall j

/-- **One step** keeps what the threads know, and what they rely on. -/
theorem Good.step (h : H.Good s) {a : Action ι κ β} (hallowed : Keeps H.Allowed s a)
    (hstep : s.step P a = some t) : H.Good t ∧ H.Rely s.shared t.shared := by
  have hmove (i : ι) (th : Thread κ β ρ) (hth : H.Knows s.shared th) (owner : Option ι)
      (log : List ρ) (hlog : ∀ r ∈ log, H.Post r s.shared) :
      H.Good { s.move i th with owner := owner, log := log } ∧ H.Rely s.shared s.shared :=
    ⟨⟨h.inv, knows_update h.threads i hth, hlog⟩, H.refl _⟩
  cases a with
  | enter i l =>
    rw [State.step] at hstep
    split at hstep
    · split_ifs at hstep with hstart
      cases hstep
      exact hmove i (.entering l) (H.pre_start hstart) _ _ h.log
    · exact nomatch hstep
  | acquire i =>
    rw [State.step] at hstep
    split at hstep
    · next l _ hi =>
      cases hstep
      have hpre : H.Knows s.shared (.entering l) := hi ▸ h.threads i
      exact hmove i (.holding l) hpre _ _ h.log
    · exact nomatch hstep
  | perform i =>
    rw [State.step] at hstep
    split at hstep
    · next l hi =>
      cases hstep
      simp only [Keeps, hi] at hallowed
      exact h.perform hi hallowed
    · exact nomatch hstep
  | wake i w =>
    rw [State.step] at hstep
    split at hstep
    · next k hi =>
      split_ifs at hstep with hw
      obtain ⟨l, hl, rfl⟩ := Option.map_eq_some_iff.1 hstep
      have hknows : H.Knows s.shared (.waiting k) := hi ▸ h.threads i
      exact hmove i (.entering l) (hknows w l hl _ (H.refl _) fun h ↦ absurd h hw) _ _ h.log
    · exact nomatch hstep
  | answer i b =>
    rw [State.step] at hstep
    split at hstep
    · next k hi =>
      cases hstep
      have hknows : H.Knows s.shared (.calling k) := hi ▸ h.threads i
      exact hmove i (.holding (k b)) (hknows b) _ _ h.log
    · exact nomatch hstep
  | release i =>
    rw [State.step] at hstep
    split at hstep
    · next r hi =>
      cases hstep
      have hpost : H.Knows s.shared (.leaving r) := hi ▸ h.threads i
      refine hmove i .idle trivial _ _ fun r' hr' ↦ ?_
      rcases List.mem_append.1 hr' with hr' | hr'
      · exact h.log r' hr'
      · rw [List.mem_singleton.1 hr']
        exact hpost
    · exact nomatch hstep

omit [DecidableEq ι] in
theorem good_initial {x : σ} (hx : H.Inv x) : H.Good (State.initial x : State ι σ κ β ρ) :=
  ⟨hx, fun _ ↦ trivial, fun _ hr ↦ absurd hr List.not_mem_nil⟩

/-- **What holds in every state reached**, and what all later states can rely on. -/
theorem good_of_within {as : List (Action ι κ β)} (hs : H.Good s)
    (hin : Within (State.step P) (Keeps H.Allowed) s as) (hrun : run (State.step P) s as = some t) :
    H.Good t ∧ H.Rely s.shared t.shared := by
  refine invariant_of_within (I := fun u ↦ H.Good u ∧ H.Rely s.shared u.shared) ?_ as
    ⟨hs, H.refl _⟩ hin hrun
  rintro u a v ⟨hu, hrely⟩ hallowed hstep
  obtain ⟨hv, hnext⟩ := hu.step hallowed hstep
  exact ⟨hv, H.trans hrely hnext⟩

end Proof

end Monitor
