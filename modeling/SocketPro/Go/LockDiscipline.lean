import SocketPro.Go.StreamingFile

/-!
# The lock of the streaming file

`sf.cs` through one call of `requestProcessed` or `postProcessing`, for every queue, reply and
world. The second loop of `postProcessing` gives the lock back for the callback of a context that
has failed, and takes it again only at the end of the call: the deque is then changed without the
lock. And the branch of `Upload` that holds the lock to its end falls into the code that takes it
once more when a request could not be sent.

A call that panics does not return; nothing in the adapter recovers.
-/

namespace SocketPro.Go.GFile

open Mutex

def Event.use : Event → Use
  | .Lock => .lock
  | .Unlock => .unlock
  | .change => .guarded
  | .panic => .abort
  | _ => .other

/-- A call of one of the two methods. -/
inductive Call
  | postProcessing
  | requestProcessed (reply : Reply)
deriving DecidableEq, Repr

def Call.run (w : World) (sf : CStreamingFile) : Call → CStreamingFile
  | .postProcessing => sf.postProcessing w
  | .requestProcessed reply => sf.requestProcessed w reply

/-- What has become of `sf.cs`, free at the beginning of the log; `none` behind a breach. -/
def CStreamingFile.lockState (sf : CStreamingFile) : Option LockState :=
  after Event.use .free sf.log

/-- `sf.cs` has been locked only when free and unlocked only when held, `m_vContext` has changed only
while it was held, and it is free now, unless the program has ended. -/
def CStreamingFile.Disciplined (sf : CStreamingFile) : Prop :=
  sf.lockState = some .free ∨ sf.lockState = some .ended

instance (sf : CStreamingFile) : Decidable sf.Disciplined :=
  inferInstanceAs (Decidable (_ ∨ _))

/-! ### When the lock is kept -/

/-- A request was not sent, and the socket has an error. -/
def Answer.Fails (a : Answer) : Prop := a.sent = false ∧ (a.ErrCode ≠ 0 ∨ a.ErrMsg ≠ "")

/-- The local file of the context at place `n` cannot be opened, or its request is not sent. -/
def StartFails (w : World) (n : ℕ) (it : CContext) : Prop :=
  (∃ err, w.opening n = .refused err) ∨ (w.opening n = .absent ∧ it.Uploading = true) ∨
    (w.start n).sent = false

/-- The first loop comes to a context that has these before it, which have all failed. -/
def Reached (max : ℕ) (before : List CContext) : Prop :=
  (∀ c ∈ before, c.IsOpen = true → c.Uploading = false) ∧ before.countP CContext.IsOpen < max

/-- With `before` in front of it, all of them failed, the context has failed too. -/
def FailsBehind (w : World) (max : ℕ) (before : List CContext) (it : CContext) : Prop :=
  it.HasError = true ∨
    (it.IsOpen = false ∧ Reached max before ∧ StartFails w before.length it)

/-- **No failed context is called back**: at every context with a callback, or before it, there is
one that has not failed. -/
def Quiet (w : World) (max : ℕ) (queue : List CContext) : Prop :=
  ∀ n it, queue[n]? = some it → it.Download = true →
    ∃ m ≤ n, ∃ c, queue[m]? = some c ∧ ¬ FailsBehind w max (queue.take m) c

/-- The `m` chunks from the `k`-th on are sent, and leave room in the sending buffer. -/
def SendsFrom (w : World) (k m : ℕ) : Prop :=
  ∀ j < m, (w.chunk (k + j)).sent = true ∧ w.bytesInSendingBuffer (k + j) ≤ 40 * STREAM_CHUNK_SIZE

/-- A loop that begins with the `k`-th chunk reads `j` more and gives the last one to
`SendRequest`. -/
def ComesFrom (w : World) (k : ℕ) (cxt : CContext) (j : ℕ) : Prop :=
  j * STREAM_CHUNK_SIZE < cxt.unread.length ∧ SendsFrom w k j

/-- **An upload that begins without an error**: neither the chunks nor `UploadCompleted` fail with an
error; one that the context had is overwritten by a send that fails with none. -/
structure Begins (w : World) (cxt : CContext) : Prop where
  chunks : ∀ k, ComesFrom w 0 cxt k → ¬ (w.chunk k).Fails
  completed : SendsFrom w 0 (cxt.unread.length / STREAM_CHUNK_SIZE) → ¬ w.completed.Fails
  context : cxt.HasError = true → ∃ k, ComesFrom w 0 cxt k ∧ (w.chunk k).sent = false

/-- There is nothing to send next, or sending it fails with an error; for a short chunk the answer
for `UploadCompleted` counts, if that is not sent. -/
def SendBreaks (w : World) (cxt : CContext) : Prop :=
  cxt.unread = [] ∨
    if cxt.unread.length < STREAM_CHUNK_SIZE then
      w.completed.Fails ∨ (w.completed.sent = true ∧ (w.chunk 0).Fails)
    else (w.chunk 0).Fails

/-- The answer to `Uploading` ends the upload with an error. -/
def Breaks (w : World) (cxt : CContext) (uploaded res : ℤ) (errMsg : String) : Prop :=
  (res ≠ 0 ∨ errMsg ≠ "") ∨ (0 ≤ uploaded ∧ cxt.Sent = false ∧ SendBreaks w cxt)

/-- What the queue, the reply and the world have to be for the lock to be kept. -/
def KeepsLock (w : World) (sf : CStreamingFile) : Call → Prop
  | .postProcessing => Quiet w sf.m_maxDownloading sf.m_vContext
  | .requestProcessed (.Download _ _) => Quiet w sf.m_maxDownloading sf.m_vContext.tail
  | .requestProcessed (.Upload res errMsg _) =>
    if res ≠ 0 ∨ errMsg ≠ "" then Quiet w sf.m_maxDownloading sf.m_vContext.tail
    else ∀ cxt ∈ sf.m_vContext.head?, Begins w cxt
  | .requestProcessed (.Uploading uploaded res errMsg) =>
    ∀ cxt ∈ sf.m_vContext.head?, Breaks w cxt uploaded res errMsg →
      Quiet w sf.m_maxDownloading sf.m_vContext.tail
  | .requestProcessed .UploadCompleted =>
    if ∃ cxt ∈ sf.m_vContext.head?, cxt.IsOpen = true then
      Quiet w sf.m_maxDownloading sf.m_vContext.tail
    else Quiet w sf.m_maxDownloading sf.m_vContext
  | .requestProcessed _ => True

/-! ### The log of a call -/

namespace CStreamingFile

variable {sf : CStreamingFile} {w : World}

theorem lockState_note (events : List Event) :
    (sf.note events).lockState = sf.lockState.bind (after Event.use · events) :=
  after_append

theorem lockState_note_none (h : sf.lockState = none) (events : List Event) :
    (sf.note events).lockState = none := by
  rw [lockState_note, h, Option.bind_none]

theorem lockState_note_other {s : Option LockState} (h : sf.lockState = s) {events : List Event}
    (hother : ∀ e ∈ events, e.use = .other) : (sf.note events).lockState = s := by
  rw [lockState_note, h]
  cases s with
  | none => rfl
  | some s => exact after_of_other hother

@[simp] theorem lockState_setFront (cxt : CContext) :
    (sf.setFront cxt).lockState = sf.lockState := rfl

theorem lockState_Lock (h : sf.lockState = some .free) : sf.Lock.lockState = some .held := by
  rw [Lock, lockState_note, h]
  rfl

theorem lockState_Unlock (h : sf.lockState = some .held) : sf.Unlock.lockState = some .free := by
  rw [Unlock, lockState_note, h]
  rfl

theorem lockState_PopFront (h : sf.lockState = some .held) :
    sf.PopFront.lockState = some .held :=
  (lockState_note _).trans (by rw [show ({ sf with m_vContext := sf.m_vContext.tail } :
    CStreamingFile).lockState = sf.lockState from rfl, h]; rfl)

theorem closing_other (cxt : CContext) : ∀ e ∈ cxt.closing, e.use = .other := by
  unfold CContext.closing
  split_ifs <;> simp [Event.use]

@[simp] theorem lockState_closeFront (cxt : CContext) :
    (sf.closeFront cxt).lockState = sf.lockState :=
  lockState_note_other rfl (closing_other cxt)

@[simp] theorem lockState_callDownload (cxt : CContext) (ErrCode : ℤ) (ErrMsg : String) :
    (sf.callDownload cxt ErrCode ErrMsg).lockState = sf.lockState := by
  unfold callDownload
  split_ifs
  · exact lockState_note_other rfl (by simp [Event.use])
  · rfl

end CStreamingFile

/-! ### The loops of `postProcessing` -/

/-- A context with a callback, such that it and all before it are `P` at their places. -/
def Leading (P : ℕ → CContext → Prop) (queue : List CContext) : Prop :=
  ∃ n it, queue[n]? = some it ∧ it.Download = true ∧ ∀ m ≤ n, ∀ c, queue[m]? = some c → P m c

section Leading

variable {P Q : ℕ → CContext → Prop} {it : CContext} {rest : List CContext}

theorem not_leading_nil : ¬ Leading P [] := by
  rintro ⟨n, it, hit, -⟩
  simp at hit

theorem leading_cons :
    Leading P (it :: rest) ↔
      P 0 it ∧ (it.Download = true ∨ Leading (fun n c ↦ P (n + 1) c) rest) := by
  constructor
  · rintro ⟨n, c, hc, hcall, hall⟩
    refine ⟨hall 0 n.zero_le it rfl, ?_⟩
    cases n with
    | zero =>
      obtain rfl := Option.some.inj hc
      exact .inl hcall
    | succ n => exact .inr ⟨n, c, hc, hcall, fun m hm ↦ hall (m + 1) (Nat.succ_le_succ hm)⟩
  · rintro ⟨hP, hcall | ⟨n, c, hc, hcall, hall⟩⟩
    · refine ⟨0, it, rfl, hcall, fun m hm c hc ↦ ?_⟩
      obtain rfl := Nat.le_zero.1 hm
      obtain rfl := Option.some.inj hc
      exact hP
    · refine ⟨n + 1, c, hc, hcall, fun m hm c hc ↦ ?_⟩
      cases m with
      | zero =>
        obtain rfl := Option.some.inj hc
        exact hP
      | succ m => exact hall m (Nat.le_of_succ_le_succ hm) c hc

theorem leading_congr (h : ∀ n c, rest[n]? = some c → (P n c ↔ Q n c)) :
    Leading P rest ↔ Leading Q rest := by
  constructor
  · rintro ⟨n, c, hc, hcall, hall⟩
    exact ⟨n, c, hc, hcall, fun m hm c hc ↦ (h m c hc).1 (hall m hm c hc)⟩
  · rintro ⟨n, c, hc, hcall, hall⟩
    exact ⟨n, c, hc, hcall, fun m hm c hc ↦ (h m c hc).2 (hall m hm c hc)⟩

end Leading

theorem quiet_iff {w : World} {max : ℕ} {queue : List CContext} :
    Quiet w max queue ↔ ¬ Leading (fun n ↦ FailsBehind w max (queue.take n)) queue := by
  constructor
  · rintro hquiet ⟨n, it, hit, hcall, hall⟩
    obtain ⟨m, hm, c, hc, hnot⟩ := hquiet n it hit hcall
    exact hnot (hall m hm c hc)
  · intro hnot n it hit hcall
    by_contra hno
    refine hnot ⟨n, it, hit, hcall, fun m hm c hc ↦ ?_⟩
    by_contra hfails
    exact hno ⟨m, hm, c, hc, hfails⟩

/-- The contexts that the second loop calls back. -/
abbrev Announces (queue : List CContext) : Prop := Leading (fun _ c ↦ c.HasError = true) queue

/-- **The second loop.** Without a callback it runs under the lock and defers nothing; the first
callback is a breach. -/
theorem popLoop_lock (queue : List CContext) :
    (¬ Announces queue → after Event.use .held (popLoop queue).2.1 = some .held ∧
      (popLoop queue).2.2 = 0) ∧
    (Announces queue → after Event.use .held (popLoop queue).2.1 = none) := by
  induction queue with
  | nil => exact ⟨fun _ ↦ ⟨rfl, rfl⟩, fun h ↦ absurd h not_leading_nil⟩
  | cons it rest ih =>
    have hclosing : after Event.use .held it.closing = some .held :=
      after_of_other (CStreamingFile.closing_other it)
    have hcons : Announces (it :: rest) ↔
        it.HasError = true ∧ (it.Download = true ∨ Announces rest) := leading_cons
    rw [hcons, popLoop]
    split_ifs with herror hcall
    · refine ⟨fun hnot ↦ absurd ⟨herror, .inl hcall⟩ hnot, fun _ ↦ ?_⟩
      -- the deque changes behind the callback, while the lock is free
      dsimp only
      rw [List.append_assoc, after_append, hclosing]
      rfl
    · simp only [herror, hcall, true_and, false_or, Bool.false_eq_true, after_append, hclosing]
      exact ih
    · exact ⟨fun _ ↦ ⟨rfl, rfl⟩, fun h ↦ absurd h.1 herror⟩

theorem failsBehind_of_not_reached {w : World} {max : ℕ} {before : List CContext} {it : CContext}
    (h : ¬ Reached max before) : FailsBehind w max before it ↔ it.HasError = true :=
  or_iff_left fun ⟨_, hreached, _⟩ ↦ h hreached

theorem Reached.of_append {max : ℕ} {before after : List CContext}
    (h : Reached max (before ++ after)) : Reached max before :=
  ⟨fun c hc ↦ h.1 c (List.mem_append_left _ hc),
    lt_of_le_of_lt (by rw [List.countP_append]; exact Nat.le_add_right _ _) h.2⟩

@[simp] theorem CContext.HasError_failing {c : CContext} {ErrCode : ℤ} {ErrMsg : String} :
    (c.failing ErrCode ErrMsg).HasError = true ↔ ErrCode ≠ 0 ∨ ErrMsg ≠ "" := by
  rw [HasError, failing, Bool.or_eq_true, decide_eq_true_iff, decide_eq_true_iff]

theorem CContext.HasError_notStarted (c : CContext) (a : Answer) :
    (c.notStarted a).HasError = true := by
  unfold notStarted
  split_ifs with h
  · exact HasError_failing.2 (.inl (by decide))
  · exact HasError_failing.2 (.inl h)

theorem CContext.HasError_answered (c : CContext) (a : Answer) :
    (c.answered a).HasError = true ↔ a.Fails ∨ (a.sent = true ∧ c.HasError = true) := by
  unfold answered Answer.Fails
  cases a.sent <;> simp

/-- What the body of the first loop does, for the context behind `before`. -/
structure Started (w : World) (max : ℕ) (before : List CContext) (it it' : CContext)
    (turn : Turn) : Prop where
  callback : it'.Download = it.Download
  error : it'.HasError = true ↔ FailsBehind w max before it
  /-- A context that has failed stops the loop if it is an open upload, and counts as a download if
  it is an open one. -/
  turns : it'.HasError = true →
    turn = if it.IsOpen then (if it.Uploading then .stop else .go 1) else .go 0

/-- Opening the local file fails. -/
def OpenFails (w : World) (n : ℕ) (it : CContext) : Prop :=
  (∃ err, w.opening n = .refused err) ∨ (w.opening n = .absent ∧ it.Uploading = true)

theorem HasError_OpenLocalRead {it : CContext} (herror : ¬ it.HasError = true)
    (hup : it.Uploading = true) (w : World) (n : ℕ) :
    (it.OpenLocalRead (w.opening n)).HasError = true ↔ OpenFails w n it := by
  unfold OpenFails
  cases w.opening n with
  | refused err => simp [CContext.OpenLocalRead]
  | absent => simp [CContext.OpenLocalRead, hup]
  | present content => exact iff_of_false herror (by simp)

theorem HasError_OpenLocalWrite {it : CContext} (herror : ¬ it.HasError = true)
    (hdown : ¬ it.Uploading = true) (w : World) (n : ℕ) :
    (it.OpenLocalWrite (w.opening n)).HasError = true ↔ OpenFails w n it := by
  unfold OpenFails
  cases w.opening n with
  | refused err => simp [CContext.OpenLocalWrite]
  | absent => exact iff_of_false herror (by simp [hdown])
  | present content => exact iff_of_false herror (by simp)

theorem Download_OpenLocalRead (it : CContext) (found : Found) :
    (it.OpenLocalRead found).Download = it.Download := by
  cases found <;> rfl

theorem Download_OpenLocalWrite (it : CContext) (found : Found) :
    (it.OpenLocalWrite found).Download = it.Download := by
  cases found <;> rfl

theorem sendStart_spec {w : World} {max : ℕ} {before : List CContext}
    (hreached : Reached max before) {it opened : CContext} (hopen : ¬ it.IsOpen = true)
    (herror : ¬ it.HasError = true) (hcall : opened.Download = it.Download)
    (hfails : opened.HasError = true ↔ OpenFails w before.length it) (r : Request) (turn : Turn) :
    Started w max before it (sendStart w before.length opened r turn).1
      (sendStart w before.length opened r turn).2.2 := by
  have hbehind : FailsBehind w max before it ↔
      OpenFails w before.length it ∨ (w.start before.length).sent = false := by
    simp [FailsBehind, StartFails, OpenFails, hopen, herror, hreached, or_assoc]
  unfold sendStart
  split_ifs with hopened hsent
  · exact ⟨hcall, by simp [hbehind, ← hfails, hopened], by simp [hopen]⟩
  · exact ⟨hcall, by simp [hbehind, ← hfails, hopened, hsent], fun h ↦ absurd h hopened⟩
  · refine ⟨?_, ?_, by simp [hopen]⟩
    · rw [← hcall, CContext.notStarted]
      split_ifs <;> rfl
    · simp [CContext.HasError_notStarted, hbehind, hsent]

theorem startContext_spec {w : World} {max : ℕ} {before : List CContext}
    (hreached : Reached max before) (it : CContext) :
    Started w max before it (startContext w before.length it).1
      (startContext w before.length it).2.2 := by
  unfold startContext
  split_ifs with hopen hup herror hup
  · exact ⟨rfl, by simp [FailsBehind, hopen], by simp [hopen, hup]⟩
  · exact ⟨rfl, by simp [FailsBehind, hopen], by simp [hopen, hup]⟩
  · exact ⟨rfl, by simp [FailsBehind, herror], by simp [hopen]⟩
  · exact sendStart_spec hreached hopen herror (Download_OpenLocalRead _ _)
      (HasError_OpenLocalRead herror hup w _) _ _
  · exact sendStart_spec hreached hopen herror (Download_OpenLocalWrite _ _)
      (HasError_OpenLocalWrite herror hup w _) _ _

theorem sendStart_other (w : World) (n : ℕ) (it : CContext) (r : Request) (turn : Turn) :
    ∀ e ∈ (sendStart w n it r turn).2.1, e.use = .other := by
  unfold sendStart
  split_ifs <;> simp [Event.use]

theorem startContext_other (w : World) (n : ℕ) (it : CContext) :
    ∀ e ∈ (startContext w n it).2.1, e.use = .other := by
  unfold startContext
  split_ifs
  iterate 3 simp
  iterate 2 exact sendStart_other w n _ _ _

/-- The first loop does nothing to the lock. -/
theorem startLoop_other (w : World) (max : ℕ) (queue : List CContext) :
    ∀ n d, ∀ e ∈ (startLoop w max n d queue).2, e.use = .other := by
  induction queue with
  | nil =>
    intro n d e he
    exact absurd he List.not_mem_nil
  | cons it rest ih =>
    intro n d
    rw [startLoop]
    have hother := startContext_other w n it
    generalize startContext w n it = started at *
    obtain ⟨it', events, turn⟩ := started
    split_ifs
    · simp
    · cases turn with
      | stop => exact hother
      | go downloads =>
        intro e he
        rcases List.mem_append.1 he with he | he
        · exact hother e he
        · exact ih _ _ e he

/-- **The first loop** leaves at the front the failed contexts that the queue and the world say. -/
theorem announces_startLoop (w : World) (max : ℕ) (queue : List CContext) :
    ∀ before : List CContext, (∀ c ∈ before, c.IsOpen = true → c.Uploading = false) →
      (Announces (startLoop w max before.length (before.countP CContext.IsOpen) queue).1 ↔
        Leading (fun n ↦ FailsBehind w max (before ++ queue.take n)) queue) := by
  induction queue with
  | nil =>
    intro before _
    exact iff_of_false not_leading_nil not_leading_nil
  | cons it rest ih =>
    intro before hbefore
    rw [startLoop]
    by_cases hmax : before.countP CContext.IsOpen ≥ max
    · -- the loop stops at once: only the contexts that had failed before are at the front
      rw [if_pos hmax]
      refine leading_congr fun n c _ ↦ (failsBehind_of_not_reached fun hreached ↦ ?_).symm
      exact absurd hreached.of_append.2 (not_lt.2 hmax)
    · rw [if_neg hmax]
      obtain ⟨hcall, herror, hturns⟩ :=
        startContext_spec (w := w) ⟨hbefore, not_le.1 hmax⟩ it
      generalize startContext w before.length it = started at *
      obtain ⟨it', events, turn⟩ := started
      dsimp only at hcall herror hturns
      have hbehind (n : ℕ) :
          before ++ (it :: rest).take (n + 1) = (before ++ [it]) ++ rest.take n := by
        rw [List.take_succ_cons, List.append_assoc, List.singleton_append]
      simp only [leading_cons, List.take_zero, List.append_nil, ← herror, hbehind]
      cases turn with
      | stop =>
        refine leading_cons.trans (and_congr_right fun hfailed ↦ ?_)
        rw [hcall]
        refine or_congr_right (leading_congr fun n c _ ↦ ?_)
        have hstop := hturns hfailed
        -- it is an open upload, and so none behind it is reached
        refine (failsBehind_of_not_reached fun hreached ↦ ?_).symm
        have hup := hreached.of_append.1 it (by simp)
        split_ifs at hstop with hopen huploading
        exact absurd (hup hopen) (by simp [huploading])
      | go downloads =>
        refine leading_cons.trans (and_congr_right fun hfailed ↦ ?_)
        rw [hcall]
        refine or_congr_right ?_
        have hgo := hturns hfailed
        have hdownloads : before.countP CContext.IsOpen + downloads =
            (before ++ [it]).countP CContext.IsOpen := by
          rw [List.countP_append, List.countP_singleton]
          split_ifs at hgo ⊢ <;> simp_all
        rw [hdownloads, ← List.length_singleton (a := it), ← List.length_append]
        refine ih (before ++ [it]) fun c hc hopen ↦ ?_
        rcases List.mem_append.1 hc with hc | hc
        · exact hbefore c hc hopen
        · obtain rfl := List.mem_singleton.1 hc
          rw [if_pos hopen] at hgo
          split_ifs at hgo with hup
          exact Bool.eq_false_iff.2 hup

namespace CStreamingFile

variable {sf : CStreamingFile} {w : World}

theorem lockState_of_log {sf' : CStreamingFile} {events : List Event}
    (h : sf'.log = sf.log ++ events) :
    sf'.lockState = sf.lockState.bind (after Event.use · events) := by
  rw [lockState, h, after_append]
  rfl

/-- A breach cannot be made good. -/
theorem lockState_postProcessing_none (h : sf.lockState = none) :
    (sf.postProcessing w).lockState = none := by
  obtain ⟨events, hlog, -⟩ := log_postProcessing sf w
  rw [lockState_of_log hlog, h, Option.bind_none]

/-- **`postProcessing`** keeps the lock if it calls no failed context back, and only then. -/
theorem disciplined_postProcessing (h : sf.lockState = some .free) :
    (sf.postProcessing w).Disciplined ↔ Quiet w sf.m_maxDownloading sf.m_vContext := by
  obtain ⟨events, hlog, hevents⟩ := log_postProcessing sf w
  have hleading := announces_startLoop w sf.m_maxDownloading sf.m_vContext [] (by simp)
  simp only [List.nil_append, List.length_nil, List.countP_nil] at hleading
  obtain ⟨hkeeps, hbreaks⟩ := popLoop_lock (startLoop w sf.m_maxDownloading 0 0 sf.m_vContext).1
  have hheld : after Event.use .free
      ([.Lock] ++ (startLoop w sf.m_maxDownloading 0 0 sf.m_vContext).2) = some .held := by
    rw [after_append]
    exact after_of_other (startLoop_other w _ _ _ _)
  have hstate : (sf.postProcessing w).lockState = after Event.use .free events := by
    rw [lockState_of_log hlog, h, Option.bind_some]
  rw [quiet_iff, ← hleading, Disciplined, hstate, hevents, List.append_assoc, after_append,
    after_append, hheld, Option.bind_some]
  by_cases hcalled : Announces (startLoop w sf.m_maxDownloading 0 0 sf.m_vContext).1
  · rw [hbreaks hcalled]
    simp [hcalled]
  · obtain ⟨hpop, hdeferred⟩ := hkeeps hcalled
    rw [hpop, hdeferred]
    exact iff_of_true (.inl rfl) hcalled

/-! ### The replies -/

theorem quiet_nil {max : ℕ} : Quiet w max [] :=
  quiet_iff.2 not_leading_nil

@[simp] theorem m_vContext_removeFailed (cxt : CContext) (abort : Bool) :
    (sf.removeFailed cxt abort).m_vContext = sf.m_vContext.tail := by
  cases abort <;> simp [removeFailed]

@[simp] theorem m_maxDownloading_removeFailed (cxt : CContext) (abort : Bool) :
    (sf.removeFailed cxt abort).m_maxDownloading = sf.m_maxDownloading := by
  cases abort <;> simp [removeFailed]

theorem lockState_removeFailed (cxt : CContext) (abort : Bool) :
    (sf.removeFailed cxt abort).lockState =
      sf.lockState.bind (after Event.use · [.Lock, .change, .Unlock]) := by
  have hremoved : (((sf.closeFront cxt).callDownload cxt cxt.ErrCode cxt.ErrMsg).Lock.PopFront.Unlock
      ).lockState = sf.lockState.bind (after Event.use · [.Lock, .change, .Unlock]) := by
    refine (@lockState_of_log ((sf.closeFront cxt).callDownload cxt cxt.ErrCode cxt.ErrMsg) _
      [.Lock, .change, .Unlock] ?_).trans ?_
    · simp [Unlock, PopFront, Lock, note]
    · rw [lockState_callDownload, lockState_closeFront]
  unfold removeFailed
  split_ifs
  · exact lockState_note_other hremoved (by simp [Event.use])
  · exact hremoved

/-- An upload that has failed, when the lock is free. -/
theorem disciplined_endFailed (h : sf.lockState = some .free) (cxt : CContext) (abort : Bool) :
    (sf.endFailed w cxt abort).Disciplined ↔ Quiet w sf.m_maxDownloading sf.m_vContext.tail := by
  have hfree : (sf.removeFailed cxt abort).lockState = some .free := by
    rw [lockState_removeFailed, h]
    rfl
  rw [endFailed, disciplined_postProcessing hfree, m_vContext_removeFailed,
    m_maxDownloading_removeFailed]

/-- And when it is held. -/
theorem lockState_endFailed_held (h : sf.lockState = some .held) (cxt : CContext) (abort : Bool) :
    (sf.endFailed w cxt abort).lockState = none := by
  refine lockState_postProcessing_none ?_
  rw [lockState_removeFailed, h]
  rfl

theorem disciplined_download (h : sf.lockState = some .free) (res : ℤ) (errMsg : String) :
    (sf.download w res errMsg).Disciplined ↔
      Quiet w sf.m_maxDownloading sf.m_vContext.tail := by
  unfold download
  dsimp only
  rw [m_vContext_Lock]
  cases hqueue : sf.m_vContext with
  | nil =>
    rw [disciplined_postProcessing (lockState_Unlock (lockState_Lock h))]
    simp [hqueue]
  | cons cxt rest =>
    dsimp only
    rw [disciplined_postProcessing ?_]
    · simp [hqueue]
    · refine lockState_Unlock (lockState_PopFront ?_)
      rw [lockState_closeFront]
      refine lockState_Lock ?_
      rw [lockState_callDownload]
      exact lockState_Unlock (lockState_Lock h)

/-- The flags that the answer to `UploadCompleted` clears do not matter. -/
theorem quiet_cleared {max : ℕ} (cxt : CContext) (rest : List CContext) :
    Quiet w max ({ cxt with Sent := false, QueueOk := false } :: rest) ↔
      Quiet w max (cxt :: rest) := by
  rw [quiet_iff, quiet_iff, leading_cons, leading_cons]
  refine not_congr (and_congr Iff.rfl (or_congr_right (leading_congr fun n c _ ↦ ?_)))
  refine or_congr_right (and_congr_right fun _ ↦ and_congr (and_congr ?_ ?_) ?_)
  · rw [List.take_succ_cons, List.take_succ_cons, List.forall_mem_cons, List.forall_mem_cons]
    exact Iff.rfl
  · rw [List.take_succ_cons, List.take_succ_cons, List.countP_cons, List.countP_cons]
    exact Iff.rfl
  · rw [List.take_succ_cons, List.take_succ_cons, List.length_cons, List.length_cons]

theorem disciplined_uploadCompleted (h : sf.lockState = some .free) :
    (sf.uploadCompleted w).Disciplined ↔
      KeepsLock w sf (.requestProcessed .UploadCompleted) := by
  unfold uploadCompleted KeepsLock
  dsimp only
  rw [m_vContext_Lock]
  cases hqueue : sf.m_vContext with
  | nil =>
    rw [disciplined_postProcessing (lockState_Unlock (lockState_Lock h))]
    simp [hqueue]
  | cons cxt rest =>
    dsimp only
    by_cases hopen : cxt.IsOpen = true
    · rw [if_pos hopen, if_pos ⟨cxt, rfl, hopen⟩, disciplined_postProcessing ?_]
      · simp [hqueue]
      · refine lockState_Unlock (lockState_PopFront ?_)
        rw [lockState_closeFront]
        refine lockState_Lock ?_
        rw [lockState_callDownload]
        exact lockState_Unlock (lockState_Lock h)
    · rw [if_neg hopen, if_neg (by simp [hopen]), disciplined_postProcessing ?_]
      · simp only [m_vContext_Unlock, m_vContext_setFront, m_vContext_Lock, hqueue, List.tail_cons,
          m_maxDownloading_Unlock, m_maxDownloading_setFront, m_maxDownloading_Lock]
        exact quiet_cleared cxt rest
      · refine lockState_Unlock ?_
        rw [lockState_setFront]
        exact lockState_Lock h

theorem lockState_PushBack (h : sf.lockState = some .held) (c : CContext) :
    (sf.PushBack c).lockState = some .held := by
  refine (@lockState_of_log sf _ [.change] rfl).trans ?_
  rw [h]
  rfl

theorem disciplined_panic (h : sf.lockState = some .free ∨ sf.lockState = some .held) :
    (sf.note [.panic]).Disciplined := by
  refine .inr ?_
  rw [lockState_note]
  rcases h with h | h <;> rw [h] <;> rfl

theorem disciplined_startDownloading (h : sf.lockState = some .free) (fileSize : ℕ)
    (localFile remoteFile : String) (flags : ℕ) (initSize : ℤ) :
    (sf.startDownloading w fileSize localFile remoteFile flags initSize).Disciplined := by
  unfold startDownloading
  dsimp only
  generalize hpushed : (if sf.Lock.m_vContext = [] then
    sf.Lock.PushBack (started w localFile remoteFile flags initSize) else sf.Lock) = pushed
  have hfree : pushed.Unlock.lockState = some .free := by
    refine lockState_Unlock ?_
    rw [← hpushed]
    split_ifs
    · exact lockState_PushBack (lockState_Lock h) _
    · exact lockState_Lock h
  split
  · exact .inl hfree
  · split
    · exact disciplined_panic (.inl hfree)
    · split_ifs <;> exact .inl hfree

theorem disciplined_downloading (h : sf.lockState = some .free) (bytes : Posix.Content) :
    (sf.downloading bytes).Disciplined := by
  have hlocked := lockState_Lock h
  unfold downloading
  dsimp only
  cases sf.Lock.m_vContext with
  | nil => exact .inl (lockState_Unlock hlocked)
  | cons cxt _ =>
    dsimp only
    cases (cxt.Write bytes).File with
    | none => exact disciplined_panic (.inr hlocked)
    | some f =>
      have hfree : (sf.Lock.setFront (cxt.Write bytes)).Unlock.lockState = some .free :=
        lockState_Unlock hlocked
      dsimp only
      split_ifs
      · exact .inl (lockState_note_other hfree (by simp [Event.use]))
      · exact .inl hfree

/-- **The next chunk** is sent without an error, or the context is noted as failed and has one. -/
theorem sendNext_spec (context : CContext) :
    (∀ e ∈ (sendNext w context).2.1, e.use = .other) ∧
      ((sendNext w context).2.2 = true ∧ (sendNext w context).1.HasError = true ↔
        SendBreaks w context) := by
  unfold sendNext SendBreaks
  by_cases hend : context.unread = []
  · obtain ⟨err, hread⟩ := context.Read_end hend
    rw [hread]
    exact ⟨by simp, by simp [hend]⟩
  · rw [context.Read_chunk hend]
    have hlength : (context.unread.take STREAM_CHUNK_SIZE).length < STREAM_CHUNK_SIZE ↔
        context.unread.length < STREAM_CHUNK_SIZE := by
      rw [List.length_take]
      omega
    simp only [hlength, hend, false_or]
    generalize context.advance (context.unread.take STREAM_CHUNK_SIZE).length = read
    split_ifs with hshort
    · refine ⟨by simp [Event.use], ?_⟩
      have hsent : ({ read.answered (w.chunk 0) with Sent := true } : CContext).HasError = true ↔
          (w.chunk 0).Fails ∨ ((w.chunk 0).sent = true ∧ read.HasError = true) :=
        CContext.HasError_answered read (w.chunk 0)
      rw [CContext.HasError_answered, hsent]
      unfold Answer.Fails
      cases (w.chunk 0).sent <;> cases w.completed.sent <;> simp
    · refine ⟨by simp [Event.use], ?_⟩
      rw [CContext.HasError_answered]
      unfold Answer.Fails
      cases (w.chunk 0).sent <;> simp

theorem acknowledged_spec (context : CContext) (uploaded res : ℤ) (errMsg : String) :
    (∀ e ∈ (acknowledged w uploaded res errMsg context).2.1, e.use = .other) ∧
      ((acknowledged w uploaded res errMsg context).2.2 = true ∧
          (acknowledged w uploaded res errMsg context).1.HasError = true ↔
        Breaks w context uploaded res errMsg) := by
  unfold acknowledged Breaks
  split_ifs with hbad hsent
  · refine ⟨by simp, ?_⟩
    rw [CContext.HasError_failing, eq_self_iff_true, true_and]
    refine (or_iff_left_of_imp fun ⟨hpos, _⟩ ↦ ?_).symm
    exact hbad.resolve_left (not_lt.2 hpos)
  · rw [not_or, not_lt] at hbad
    simp [hbad, hsent]
  · rw [not_or, not_lt] at hbad
    rw [Bool.not_eq_true] at hsent
    simp only [hbad, hsent, false_or, true_and]
    exact sendNext_spec context

theorem disciplined_uploading (h : sf.lockState = some .free) (uploaded res : ℤ)
    (errMsg : String) :
    (sf.uploading w uploaded res errMsg).Disciplined ↔
      KeepsLock w sf (.requestProcessed (.Uploading uploaded res errMsg)) := by
  unfold uploading KeepsLock
  dsimp only
  rw [m_vContext_Lock]
  cases hqueue : sf.m_vContext with
  | nil => exact iff_of_true (.inl (lockState_Unlock (lockState_Lock h))) (by simp)
  | cons context rest =>
    simp only [List.head?_cons, Option.mem_def, Option.some.injEq, forall_eq', List.tail_cons]
    obtain ⟨hother, hfails⟩ := acknowledged_spec (w := w) context uploaded res errMsg
    generalize acknowledged w uploaded res errMsg context = next at *
    obtain ⟨context', events, noted⟩ := next
    dsimp only at hother hfails ⊢
    have hfree : (((sf.Lock.note events).setFront context').Unlock).lockState = some .free :=
      lockState_Unlock (lockState_note_other (lockState_Lock h) hother)
    rw [← hfails]
    split_ifs with herror
    · rw [disciplined_endFailed hfree]
      simp [hqueue, herror]
    · exact iff_of_true (.inl (lockState_note_other hfree (by simp [Event.use])))
        fun hf ↦ absurd hf herror
    · exact iff_of_true (.inl hfree) fun hf ↦ absurd hf herror

end CStreamingFile

/-! ### The first sending loop -/

section SendLoop

variable {w : World} {k m j : ℕ} {cxt read : CContext}

theorem sendsFrom_zero : SendsFrom w k 0 := fun _ h ↦ absurd h (Nat.not_lt_zero _)

theorem sendsFrom_succ :
    SendsFrom w k (m + 1) ↔
      ((w.chunk k).sent = true ∧ w.bytesInSendingBuffer k ≤ 40 * STREAM_CHUNK_SIZE) ∧
        SendsFrom w (k + 1) m := by
  unfold SendsFrom
  constructor
  · intro h
    exact ⟨h 0 m.succ_pos, fun j hj ↦ by
      simpa only [Nat.add_right_comm, Nat.add_assoc] using h (j + 1) (Nat.succ_lt_succ hj)⟩
  · rintro ⟨hfirst, hrest⟩ j hj
    cases j with
    | zero => exact hfirst
    | succ j =>
      simpa only [Nat.add_right_comm, Nat.add_assoc] using hrest j (Nat.lt_of_succ_lt_succ hj)

theorem comesFrom_zero : ComesFrom w k cxt 0 ↔ cxt.unread ≠ [] := by
  rw [ComesFrom, Nat.zero_mul, List.length_pos_iff]
  exact and_iff_left sendsFrom_zero

theorem comesFrom_succ (hread : read.unread = cxt.unread.drop STREAM_CHUNK_SIZE) :
    ComesFrom w k cxt (j + 1) ↔
      ((w.chunk k).sent = true ∧ w.bytesInSendingBuffer k ≤ 40 * STREAM_CHUNK_SIZE) ∧
        ComesFrom w (k + 1) read j := by
  rw [ComesFrom, ComesFrom, sendsFrom_succ, hread, List.length_drop, Nat.succ_mul]
  constructor
  · rintro ⟨hlt, hfirst, hrest⟩
    exact ⟨hfirst, Nat.lt_sub_of_add_lt hlt, hrest⟩
  · rintro ⟨hfirst, hlt, hrest⟩
    exact ⟨Nat.add_lt_of_lt_sub hlt, hfirst, hrest⟩

/-- The first chunk that is reached, or one behind it. -/
theorem exists_comesFrom {P : ℕ → Prop} (hne : cxt.unread ≠ [])
    (hread : read.unread = cxt.unread.drop STREAM_CHUNK_SIZE) :
    (∃ j, ComesFrom w k cxt j ∧ P (k + j)) ↔
      P k ∨ (((w.chunk k).sent = true ∧ w.bytesInSendingBuffer k ≤ 40 * STREAM_CHUNK_SIZE) ∧
        ∃ j, ComesFrom w (k + 1) read j ∧ P (k + 1 + j)) := by
  constructor
  · rintro ⟨j, hj, hP⟩
    cases j with
    | zero => exact .inl hP
    | succ j =>
      obtain ⟨hfirst, hrest⟩ := (comesFrom_succ hread).1 hj
      exact .inr ⟨hfirst, j, hrest, by rwa [Nat.add_right_comm]⟩
  · rintro (hP | ⟨hfirst, j, hj, hP⟩)
    · exact ⟨0, comesFrom_zero.2 hne, hP⟩
    · exact ⟨j + 1, (comesFrom_succ hread).2 ⟨hfirst, hj⟩, by rwa [Nat.add_right_comm] at hP⟩

/-- The chunks that are full, counted from a read on. -/
theorem sendsFrom_full (hread : read.unread = cxt.unread.drop STREAM_CHUNK_SIZE) :
    SendsFrom w k (cxt.unread.length / STREAM_CHUNK_SIZE) ↔
      cxt.unread.length < STREAM_CHUNK_SIZE ∨
        (((w.chunk k).sent = true ∧ w.bytesInSendingBuffer k ≤ 40 * STREAM_CHUNK_SIZE) ∧
          SendsFrom w (k + 1) (read.unread.length / STREAM_CHUNK_SIZE)) := by
  rcases Nat.lt_or_ge cxt.unread.length STREAM_CHUNK_SIZE with hlt | hge
  · rw [Nat.div_eq_of_lt hlt]
    exact iff_of_true sendsFrom_zero (.inl hlt)
  · rw [Nat.div_eq_sub_div (by decide) hge, sendsFrom_succ, hread, List.length_drop]
    exact (or_iff_right (not_lt.2 hge)).symm

theorem sendLoop_other (w : World) (k : ℕ) (cxt : CContext) :
    ∀ e ∈ (sendLoop w k cxt).2.1, e.use = .other := by
  fun_induction sendLoop w k cxt with
  | case1 => simp
  | case2 => simp [Event.use]
  | case3 k cxt bytes read hread sending hgo last events n heq ih =>
    rw [heq] at ih
    exact List.forall_mem_cons.2 ⟨rfl, ih⟩

/-- **What the loop leaves**: an error, and whether the last read was short. -/
theorem sendLoop_spec (w : World) (k : ℕ) (cxt : CContext) :
    ((sendLoop w k cxt).1.HasError = true ↔
      (∃ j, ComesFrom w k cxt j ∧ (w.chunk (k + j)).Fails) ∨
        (cxt.HasError = true ∧ ¬ ∃ j, ComesFrom w k cxt j ∧ (w.chunk (k + j)).sent = false)) ∧
    ((sendLoop w k cxt).2.2 < STREAM_CHUNK_SIZE ↔
      SendsFrom w k (cxt.unread.length / STREAM_CHUNK_SIZE)) := by
  fun_induction sendLoop w k cxt with
  | case1 k cxt err cxt' hread =>
    -- the end of the file: nothing is reached
    obtain ⟨hend, rfl⟩ := cxt.Read_error hread
    have hnone (j : ℕ) : ¬ ComesFrom w k cxt' j := fun hj ↦ by simpa [hend] using hj.1
    simp [hnone, hend, sendsFrom_zero]
  | case2 k cxt bytes read hread sending hstop =>
    have hstop' : ¬ ((w.chunk k).sent = true ∧
        w.bytesInSendingBuffer k ≤ 40 * STREAM_CHUNK_SIZE) := fun ⟨hsent, hroom⟩ ↦
      hstop.elim (absurd hsent) (not_lt.2 hroom)
    obtain ⟨hne, rfl, rfl⟩ := cxt.Read_ok hread
    have hdrop := cxt.unread_of_Read_ok hread
    refine ⟨?_, ?_⟩
    · rw [exists_comesFrom (P := fun k ↦ (w.chunk k).Fails) hne hdrop,
        exists_comesFrom (P := fun k ↦ (w.chunk k).sent = false) hne hdrop,
        CContext.HasError_answered]
      simp [hstop', and_comm]
    · rw [sendsFrom_full hdrop, List.length_take, min_lt_iff]
      simp only [hstop', false_and, or_false, lt_self_iff_false, false_or]
  | case3 k cxt bytes read hread sending hgo last events n heq ih =>
    rw [heq] at ih
    obtain ⟨hne, rfl, rfl⟩ := cxt.Read_ok hread
    have hdrop := cxt.unread_of_Read_ok hread
    obtain ⟨hsent, hroom⟩ : (w.chunk k).sent = true ∧
        w.bytesInSendingBuffer k ≤ 40 * STREAM_CHUNK_SIZE := by
      simpa [not_or] using hgo
    refine ⟨?_, ?_⟩
    · rw [exists_comesFrom (P := fun k ↦ (w.chunk k).Fails) hne hdrop,
        exists_comesFrom (P := fun k ↦ (w.chunk k).sent = false) hne hdrop]
      simpa [hsent, hroom, Answer.Fails] using ih.1
    · rw [sendsFrom_full hdrop]
      refine ih.2.trans ?_
      rw [and_iff_right ⟨hsent, hroom⟩]
      refine (or_iff_right_of_imp fun hlt ↦ ?_).symm
      rw [hdrop, List.drop_of_length_le hlt.le]
      exact sendsFrom_zero

theorem backup_other (w : World) (cxt : CContext) : ∀ e ∈ backup w cxt, e.use = .other := by
  unfold backup
  split_ifs <;> simp [Event.use]

theorem complete_other (w : World) (cxt : CContext) : ∀ e ∈ (complete w cxt).2, e.use = .other := by
  unfold complete
  split_ifs <;> simp [Event.use]

theorem beginUpload_other (w : World) (cxt : CContext) :
    ∀ e ∈ (beginUpload w cxt).2, e.use = .other := by
  have hbegun : ∀ e ∈ Event.StartJob :: backup w { cxt with QueueOk := w.StartJob },
      e.use = .other :=
    List.forall_mem_cons.2 ⟨rfl, backup_other w _⟩
  have hsent := sendLoop_other w 0 { cxt with QueueOk := w.StartJob }
  unfold beginUpload
  dsimp only
  split_ifs
  · exact List.forall_mem_append.2 ⟨List.forall_mem_append.2 ⟨hbegun, hsent⟩, complete_other w _⟩
  · exact List.forall_mem_append.2 ⟨hbegun, hsent⟩

/-- **The branch of `Upload`** leaves no error exactly when the upload begins without one. -/
theorem HasError_beginUpload (w : World) (cxt : CContext) :
    ¬ (beginUpload w cxt).1.HasError = true ↔ Begins w cxt := by
  obtain ⟨herror, hshort⟩ := sendLoop_spec w 0 { cxt with QueueOk := w.StartJob }
  have herror' : (sendLoop w 0 { cxt with QueueOk := w.StartJob }).1.HasError = true ↔
      (∃ j, ComesFrom w 0 cxt j ∧ (w.chunk j).Fails) ∨
        (cxt.HasError = true ∧ ¬ ∃ j, ComesFrom w 0 cxt j ∧ (w.chunk j).sent = false) := by
    simp only [Nat.zero_add] at herror
    exact herror
  have hshort' : (sendLoop w 0 { cxt with QueueOk := w.StartJob }).2.2 < STREAM_CHUNK_SIZE ↔
      SendsFrom w 0 (cxt.unread.length / STREAM_CHUNK_SIZE) := hshort
  unfold beginUpload
  dsimp only
  generalize sendLoop w 0 { cxt with QueueOk := w.StartJob } = sent at *
  have hbegins : Begins w cxt ↔ ¬ sent.1.HasError = true ∧
      (sent.2.2 < STREAM_CHUNK_SIZE → ¬ w.completed.Fails) := by
    rw [herror', hshort', not_or, not_exists, not_and, not_not]
    constructor
    · rintro ⟨hchunks, hcompleted, hcontext⟩
      exact ⟨⟨fun j ⟨hj, hfails⟩ ↦ hchunks j hj hfails, hcontext⟩, hcompleted⟩
    · rintro ⟨⟨hchunks, hcontext⟩, hcompleted⟩
      exact ⟨fun j hj hfails ↦ hchunks j ⟨hj, hfails⟩, hcompleted, hcontext⟩
  rw [hbegins]
  split_ifs with hcompletes
  · have hcompleted : (complete w sent.1).1.HasError = true ↔
        w.completed.Fails ∨ (w.completed.sent = true ∧ sent.1.HasError = true) :=
      CContext.HasError_answered _ _
    rw [hcompleted]
    simp [hcompletes]
  · simp only [iff_self_and]
    intro hnone hlt
    exact absurd ⟨hnone, hlt⟩ hcompletes

end SendLoop

namespace CStreamingFile

variable {sf : CStreamingFile} {w : World}

/-- The two ways in which the branch for an accepted upload ends. -/
theorem disciplined_begun (h : sf.lockState = some .free) (cxt : CContext) (events : List Event)
    (hother : ∀ e ∈ events, e.use = .other) :
    (if cxt.HasError = true then ((sf.Lock.note events).setFront cxt).endFailed w cxt cxt.QueueOk
      else (sf.Lock.note events).setFront cxt).Unlock.Disciplined ↔ ¬ cxt.HasError = true := by
  have hheld : ((sf.Lock.note events).setFront cxt).lockState = some .held :=
    lockState_note_other (lockState_Lock h) hother
  split_ifs with herror
  · -- the lock is held when it is taken once more
    refine iff_of_false ?_ (not_not.2 herror)
    rw [Disciplined, Unlock, lockState_note_none (lockState_endFailed_held hheld _ _)]
    simp
  · exact iff_of_true (.inl (lockState_Unlock hheld)) herror

theorem disciplined_upload (h : sf.lockState = some .free) (res : ℤ) (errMsg : String)
    (initSize : ℤ) :
    (sf.upload w res errMsg initSize).Disciplined ↔
      KeepsLock w sf (.requestProcessed (.Upload res errMsg initSize)) := by
  unfold upload KeepsLock
  dsimp only
  rw [m_vContext_Lock]
  cases hqueue : sf.m_vContext with
  | nil =>
    refine iff_of_true (.inl (lockState_Unlock (lockState_Lock h))) ?_
    split_ifs
    · exact quiet_nil
    · simp
  | cons cxt rest =>
    dsimp only
    by_cases hbad : res ≠ 0 ∨ errMsg ≠ ""
    · rw [if_pos hbad, if_pos hbad,
        disciplined_endFailed (lockState_Unlock (by rw [lockState_setFront]; exact lockState_Lock h))]
      simp [hqueue]
    · rw [if_neg hbad, if_neg hbad, disciplined_begun h _ _ (beginUpload_other w _),
        HasError_beginUpload]
      simp only [List.head?_cons, Option.mem_def, Option.some.injEq, forall_eq']
      exact ⟨fun ⟨hchunks, hcompleted, hcontext⟩ ↦ ⟨hchunks, hcompleted, hcontext⟩,
        fun ⟨hchunks, hcompleted, hcontext⟩ ↦ ⟨hchunks, hcompleted, hcontext⟩⟩

end CStreamingFile

/-- **The lock is kept exactly when** no failed context with a callback comes to the front of a
queue that `postProcessing` works at, and an upload that the server has accepted begins without an
error. -/
theorem disciplined_iff (w : World) (sf : CStreamingFile) (h : sf.lockState = some .free)
    (call : Call) : (call.run w sf).Disciplined ↔ KeepsLock w sf call := by
  cases call with
  | postProcessing => exact CStreamingFile.disciplined_postProcessing h
  | requestProcessed reply =>
    cases reply with
    | Download res errMsg => exact CStreamingFile.disciplined_download h res errMsg
    | StartDownloading fileSize localFile remoteFile flags initSize =>
      exact iff_of_true (CStreamingFile.disciplined_startDownloading h _ _ _ _ _) trivial
    | Downloading bytes => exact iff_of_true (CStreamingFile.disciplined_downloading h bytes) trivial
    | UploadBackup => exact iff_of_true (.inl h) trivial
    | Upload res errMsg initSize => exact CStreamingFile.disciplined_upload h res errMsg initSize
    | Uploading uploaded res errMsg =>
      exact CStreamingFile.disciplined_uploading h uploaded res errMsg
    | UploadCompleted => exact CStreamingFile.disciplined_uploadCompleted h
    | other => exact iff_of_true (.inl h) trivial

/-- A world where local files are empty and every request is sent. -/
def World.plain : World :=
  { opening := fun _ ↦ .present [], start := fun _ ↦ ⟨true, 0, ""⟩, backup := true
    chunk := fun _ ↦ ⟨true, 0, ""⟩, completed := ⟨true, 0, ""⟩, bytesInSendingBuffer := fun _ ↦ 0
    StartJob := false, IsAvailable := false }

/-- An upload with a callback. -/
def CContext.plain : CContext :=
  { Download := true, Transferring := true, Uploading := true, Flags := FILE_OPEN_TRUNCACTED
    LocalFile := "local", FilePath := "remote" }

/-- A failed context without a callback in front of an upload that starts. -/
theorem failed_then_started_disciplined :
    (Call.run World.plain
      ⟨[{ CContext.plain.failing (-2) "" with Download := false }, CContext.plain], 1, []⟩
      .postProcessing).Disciplined := by
  refine (disciplined_iff _ _ rfl _).2 fun n it hit hcall ↦ ?_
  match n with
  | 0 =>
    obtain rfl := Option.some.inj hit
    cases hcall
  | 1 =>
    refine ⟨1, le_rfl, CContext.plain, rfl, ?_⟩
    rintro (herror | ⟨-, -, ⟨err, herr⟩ | ⟨habsent, -⟩ | hstart⟩)
    · cases herror
    · cases herr
    · cases habsent
    · cases hstart
  | n + 2 => cases hit

/-- **One failed context with a callback** is enough. -/
theorem not_disciplined :
    ¬ ∀ (w : World) (sf : CStreamingFile) (call : Call), sf.lockState = some .free →
      (call.run w sf).Disciplined := fun h ↦
  absurd (h World.plain ⟨[CContext.plain.failing (-2) ""], 1, []⟩ .postProcessing rfl) (by decide)

end SocketPro.Go.GFile
