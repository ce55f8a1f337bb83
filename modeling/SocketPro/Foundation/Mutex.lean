import SocketPro.Foundation.Run

/-!
# The use of one mutex, read off a log

What a program did is a list of events, and `use` says what each of them is to one mutex that is not
reentrant: it locks or unlocks it, it touches what the mutex guards, it ends the program, or it is
nothing to it. `LockState` is an automaton over such a list. It has no step for a lock of a mutex
that is held, for an unlock of one that is free, and for a touch of what is guarded while it is
free, so `run` breaks off at the first of these.
-/

namespace Mutex

open Machine

/-- What an event is to the mutex. -/
inductive Use
  | lock
  | unlock
  /-- What the mutex guards is changed. -/
  | guarded
  /-- The program ends here, with the mutex as it is. -/
  | abort
  | other
deriving DecidableEq, Repr

inductive LockState
  | free
  | held
  | ended
deriving DecidableEq, Repr

namespace LockState

def step : LockState → Use → Option LockState
  | .free, .lock => some .held
  | .held, .unlock => some .free
  | .held, .guarded => some .held
  | .free, .abort | .held, .abort => some .ended
  | s, .other => some s
  | _, _ => none

@[simp] theorem step_other (s : LockState) : s.step .other = some s := by
  cases s <;> rfl

end LockState

variable {ε : Type*} (use : ε → Use)

/-- The state after the events of a log, `none` behind a breach. -/
def after (s : LockState) (log : List ε) : Option LockState := run LockState.step s (log.map use)

variable {use} {s : LockState} {log log' : List ε}

theorem after_cons (e : ε) : after use s (e :: log) = (s.step (use e)).bind (after use · log) := by
  rw [after, List.map_cons, run]
  cases s.step (use e) <;> rfl

theorem after_append : after use s (log ++ log') = (after use s log).bind (after use · log') := by
  induction log generalizing s with
  | nil => rfl
  | cons e log ih =>
    rw [List.cons_append, after_cons, after_cons]
    cases s.step (use e) with
    | none => rfl
    | some t => exact ih

/-- **Events that are nothing to the mutex** leave it as it is. -/
theorem after_of_other (h : ∀ e ∈ log, use e = .other) : after use s log = some s := by
  induction log with
  | nil => rfl
  | cons e log ih =>
    rw [after_cons, h e List.mem_cons_self, LockState.step_other, Option.bind_some,
      ih fun e' he ↦ h e' (List.mem_cons_of_mem _ he)]

end Mutex
