import SocketPro.Foundation.InLine

/-!
# Requests on their way to a server

A sender keeps the requests it has accepted and has not got an answer for. Those that are written,
or will be without anybody's doing, are on the `wire`; between `startJob` and `endJob` it keeps them
back in a `job`, and between `startBatch` and `commit` in a `batch`. What is kept back is let go in
one go, or dropped. The server answers the wire in order.

**The order.** `all` lists the requests in the order in which they have been and will be written. A
new request comes last (`all_accept`), letting go changes nothing (`all_commit`, `all_endJob`), and
an answer or a drop leaves a sublist.
-/

namespace Transit

variable {α : Type*}

/-- The requests of a sender. -/
structure Sender (α : Type*) where
  wire : List α := []
  job : Option (List α) := none
  batch : Option (List α) := none
deriving DecidableEq

namespace Sender

variable (s : Sender α)

/-- The requests that are kept back for a job. -/
def inJob : List α := s.job.getD []

/-- The requests that are kept back for a batch. -/
def inBatch : List α := s.batch.getD []

/-- The requests in the order they are written. -/
def all : List α := s.wire ++ s.inJob ++ s.inBatch

/-- Requests that belong to no batch. -/
def enqueue (l : List α) : Sender α :=
  match s.job with
  | some j => { s with job := some (j ++ l) }
  | none => { s with wire := s.wire ++ l }

/-- A new request. -/
def accept (a : α) : Sender α :=
  match s.batch with
  | some b => { s with batch := some (b ++ [a]) }
  | none => s.enqueue [a]

def startBatch : Sender α := { s with batch := some s.inBatch }

/-- The batch is let go. -/
def commit : Sender α := { s.enqueue s.inBatch with batch := none }

def dropBatch : Sender α := { s with batch := none }

def startJob : Sender α := { s with job := some s.inJob }

/-- The job is let go. -/
def endJob : Sender α := { s with wire := s.wire ++ s.inJob, job := none }

def dropJob : Sender α := { s with job := none }

/-- The first request on the wire is answered. -/
def answered : Sender α := { s with wire := s.wire.tail }

/-- The requests on the wire of another sender are taken over. -/
def takeOver (l : List α) : Sender α := { s with wire := s.wire ++ l }

variable {s} {a : α} {l : List α}

theorem all_enqueue (h : s.inBatch = []) : (s.enqueue l).all = s.all ++ l := by
  obtain ⟨wire, job, batch⟩ := s
  have hbatch : Option.getD batch [] = [] := h
  rcases job with - | j <;>
    simp [enqueue, all, inJob, inBatch, hbatch, List.append_assoc]

/-- **A new request comes last.** -/
theorem all_accept : (s.accept a).all = s.all ++ [a] := by
  obtain ⟨wire, job, - | b⟩ := s
  · exact all_enqueue rfl
  · simp [accept, all, inJob, inBatch, List.append_assoc]

/-- **Letting the batch go** changes no place. -/
theorem all_commit : s.commit.all = s.all := by
  obtain ⟨wire, job, batch⟩ := s
  rcases job with - | j <;> simp [commit, enqueue, all, inJob, inBatch, List.append_assoc]

/-- **Letting the job go** changes no place. -/
theorem all_endJob : s.endJob.all = s.all := by
  simp [endJob, all, inJob, inBatch]

theorem all_dropBatch : s.dropBatch.all = s.wire ++ s.inJob := List.append_nil _

theorem all_dropJob : s.dropJob.all = s.wire ++ s.inBatch := by
  simp [dropJob, all, inJob, inBatch]

theorem dropBatch_sublist : s.dropBatch.all.Sublist s.all := by
  simp [dropBatch, all, inJob, inBatch]

theorem dropJob_sublist : s.dropJob.all.Sublist s.all := by
  simp [dropJob, all, inJob, inBatch, List.append_assoc]

theorem answered_sublist : s.answered.all.Sublist s.all := by
  rw [all, all, List.append_assoc, List.append_assoc]
  exact (List.tail_sublist _).append_right _

/-- The request that is answered is the first of all. -/
theorem all_of_wire {rest : List α} (h : s.wire = a :: rest) :
    s.all = a :: s.answered.all := by
  simp [all, answered, h, inJob, inBatch]

end Sender

end Transit
