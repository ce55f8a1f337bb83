import SocketPro.File.UploadSession

/-!
# Which file an acknowledgement is for

The requests that are not answered yet all belong to the front context, as long as that context is
removed only when none of them is left. Then every acknowledgement is taken for the file it is
about. **A file that is dropped because of an error leaves its requests behind**: their
acknowledgements are taken for the next file, up to its success.

* `onPostProcessing_sound`, `handle_sound` — one step keeps what is unanswered at the front
  (`Front`);
* `uploads_honest` — in a run that drops a file only when nothing of it is unanswered
  (`Clean`), success is reported only for files that the server has completed;
* `upload_dishonest` — a write error while two chunks and the completion are under way makes the
  next file succeed before the server has seen a chunk of it.
-/

namespace SocketPro.FileStream

open Machine

/-! ### Contexts -/

/-- A file to upload that is not opened yet. -/
structure CContext.Waiting (c : CContext) : Prop where
  closed : c.IsOpen = false
  noError : c.HasError = false
  uploading : c.Uploading = true

/-- The file at the front that is being uploaded. -/
structure CContext.Active (c : CContext) : Prop where
  isOpen : c.IsOpen = true
  noError : c.HasError = false
  uploading : c.Uploading = true

theorem CContext.hasError_iff {c : CContext} :
    c.HasError = true ↔ c.ErrorCode ≠ 0 ∨ c.ErrMsg ≠ "" := by
  rw [CContext.HasError, Bool.or_eq_true, decide_eq_true_eq, decide_eq_true_eq]

theorem CContext.hasError_eq_false_iff {c : CContext} :
    c.HasError = false ↔ c.ErrorCode = 0 ∧ c.ErrMsg = "" := by
  rw [← Bool.not_eq_true, CContext.hasError_iff, not_or, not_not, not_not]

theorem CContext.errorCode_of_openLocal {c : CContext} {o : LocalOpen}
    (h : (c.openLocal o).HasError = true) : (c.openLocal o).ErrorCode ≠ 0 :=
  (CContext.hasError_iff.1 h).elim (fun h ↦ h) o.error_of_message

theorem CContext.active_of_openLocal {c : CContext} {o : LocalOpen} (hc : c.Uploading = true)
    (h : (c.openLocal o).HasError = false) : (c.openLocal o).Active where
  isOpen := by
    have hcode : o.ErrorCode = 0 := (CContext.hasError_eq_false_iff.1 h).1
    rw [CContext.IsOpen, CContext.openLocal, Option.isSome_iff_ne_none]
    exact fun hnone ↦ o.error_of_none hnone hcode
  noError := h
  uploading := hc

theorem CContext.notSent_errorCode (c : CContext) (ec : ℤ) (em : String) :
    (c.notSent ec em).ErrorCode ≠ 0 := by
  rw [CContext.notSent]
  split_ifs with hec
  · exact hec
  · show SESSION_CLOSED_BEFORE ≠ 0
    decide

theorem waiting_new (id : ℕ) (up aborted : Bool) : (CContext.new id true up aborted).Waiting :=
  ⟨rfl, rfl, rfl⟩

/-! ### What is unanswered -/

/-- The requests about one file that are not answered yet, in order: the first of all alone, or
chunks with the completion behind them, after which nothing is sent. -/
inductive Unanswered (id : ℕ) (sent : Bool) : List Request → Prop
  | upload : Unanswered id sent [⟨id, .idUpload⟩]
  | chunks (k : ℕ) : Unanswered id sent (List.replicate k ⟨id, .idUploading⟩)
  | completed (k : ℕ) (h : sent = true) :
      Unanswered id sent (List.replicate k ⟨id, .idUploading⟩ ++ [⟨id, .idUploadCompleted⟩])

/-- What is unanswered belongs to the file at the front. -/
inductive Front : List CContext → List Request → Prop
  | idle {v : List CContext} : (∀ c ∈ v, c.Waiting) → Front v []
  | busy {c : CContext} {rest : List CContext} {l : List Request} : c.Active →
      (∀ d ∈ rest, d.Waiting) → Unanswered c.id c.Sent l → Front (c :: rest) l

/-- What is known of the first request that is answered, and of those behind it. -/
structure Next (id : ℕ) (sent : Bool) (r : Request) (l : List Request) : Prop where
  owner : r.owner = id
  rest : Unanswered id sent l
  alone : r.reqId ≠ .idUploading → l = []
  chunks : sent = false → ∃ k, l = List.replicate k ⟨id, .idUploading⟩

theorem Unanswered.next {id : ℕ} {sent : Bool} {r : Request} {l : List Request}
    (h : Unanswered id sent (r :: l)) : Next id sent r l := by
  generalize hlist : r :: l = m at h
  cases h with
  | upload =>
    obtain ⟨rfl, rfl⟩ := List.cons.inj hlist
    exact ⟨rfl, .chunks 0, fun _ ↦ rfl, fun _ ↦ ⟨0, rfl⟩⟩
  | chunks k =>
    cases k with
    | zero => cases hlist
    | succ k =>
      obtain ⟨rfl, rfl⟩ := List.cons.inj hlist
      exact ⟨rfl, .chunks k, fun hne ↦ absurd rfl hne, fun _ ↦ ⟨k, rfl⟩⟩
  | completed k hsent =>
    cases k with
    | zero =>
      obtain ⟨rfl, rfl⟩ := List.cons.inj hlist
      exact ⟨rfl, .chunks 0, fun _ ↦ rfl, fun _ ↦ ⟨0, rfl⟩⟩
    | succ k =>
      obtain ⟨rfl, rfl⟩ := List.cons.inj hlist
      exact ⟨rfl, .completed k hsent, fun hne ↦ absurd rfl hne,
        fun hnot ↦ absurd (hnot.symm.trans hsent) Bool.false_ne_true⟩

/-! ### Opening files -/

/-- Contexts with an error in front of the others, of which the first may have been opened. -/
inductive Opened : List CContext → List Request → Prop
  | front {v : List CContext} {l : List Request} : Front v l → Opened v l
  | error {c : CContext} {v : List CContext} {l : List Request} : c.ErrorCode ≠ 0 →
      c.HasError = true → Opened v l → Opened (c :: v) l

theorem openFiles_opened (maxDownloading : ℕ) (env : ℕ → Opening) {v : List CContext}
    (hwait : ∀ c ∈ v, c.Waiting) :
    Opened (openFiles maxDownloading env 0 v).1 (openFiles maxDownloading env 0 v).2 := by
  induction v with
  | nil => exact .front (.idle hwait)
  | cons it v ih =>
    obtain ⟨hit, hv⟩ := List.forall_mem_cons.1 hwait
    rw [openFiles, if_neg (Bool.eq_false_iff.1 hit.closed), if_neg (Bool.eq_false_iff.1 hit.noError)]
    dsimp only
    split_ifs with hmax hfail hsent hup
    · exact .front (.idle hwait)
    · exact .error (CContext.errorCode_of_openLocal hfail) hfail (ih hv)
    · have hactive := CContext.active_of_openLocal hit.uploading (Bool.eq_false_iff.2 hfail)
      exact .front (.busy hactive hv .upload)
    · exact absurd hit.uploading hup
    · exact .error (CContext.notSent_errorCode _ _ _)
        (CContext.hasError_iff.2 (.inl (CContext.notSent_errorCode _ _ _))) (ih hv)

/-- An upload is under way: nothing is opened. -/
theorem openFiles_of_active (maxDownloading : ℕ) (env : ℕ → Opening) {c : CContext}
    (rest : List CContext) (hc : c.Active) :
    openFiles maxDownloading env 0 (c :: rest) = (c :: rest, []) := by
  rw [openFiles, if_pos hc.isOpen, if_pos hc.uploading, ite_self]

/-- The first loop of `OnPostProcessing`. -/
theorem Front.opened {v : List CContext} {l : List Request} (h : Front v l) (maxDownloading : ℕ)
    (env : ℕ → Opening) :
    Opened (openFiles maxDownloading env 0 v).1 (l ++ (openFiles maxDownloading env 0 v).2) := by
  cases h with
  | idle hwait => exact openFiles_opened maxDownloading env hwait
  | busy hc hrest hl =>
    rw [openFiles_of_active maxDownloading env _ hc, List.append_nil]
    exact .front (.busy hc hrest hl)

/-- `idUploadBackup` is acknowledged, but not for a file. -/
def Concerns (r : Request) : Bool := decide (r.reqId ≠ .idUploadBackup)

theorem Front.filter {v : List CContext} {l : List Request} (h : Front v l) :
    l.filter Concerns = l := by
  rw [List.filter_eq_self]
  intro r hr
  cases h with
  | idle => cases hr
  | busy _ _ hl =>
    cases hl with
    | upload => rw [List.mem_singleton.1 hr]; rfl
    | chunks k => rw [List.eq_of_mem_replicate hr]; rfl
    | completed k =>
      rcases List.mem_append.1 hr with hr | hr
      · rw [List.eq_of_mem_replicate hr]; rfl
      · rw [List.mem_singleton.1 hr]; rfl

theorem Opened.filter {v : List CContext} {l : List Request} (h : Opened v l) :
    l.filter Concerns = l := by
  induction h with
  | front h => exact h.filter
  | error _ _ _ ih => exact ih

/-! ### Sending chunks -/

/-- What a handler leaves of the context it sends for. -/
structure Keeps (c d : CContext) : Prop where
  id : d.id = c.id
  download : d.Download = c.Download
  queueOk : d.QueueOk = c.QueueOk
  uploading : d.Uploading = c.Uploading
  hasError : d.HasError = c.HasError
  isOpen : c.IsOpen = true → d.IsOpen = true

theorem Keeps.refl (c : CContext) : Keeps c c := ⟨rfl, rfl, rfl, rfl, rfl, fun h ↦ h⟩

theorem Keeps.active {c d : CContext} (h : Keeps c d) (hc : c.Active) : d.Active :=
  ⟨h.isOpen hc.isOpen, h.hasError.trans hc.noError, h.uploading.trans hc.uploading⟩

theorem keeps_read (c : CContext) : Keeps c c.read.2 := by
  rw [CContext.read]
  split
  · exact .refl c
  · exact .refl c
  · exact ⟨rfl, rfl, rfl, rfl, rfl, fun _ ↦ rfl⟩

/-- The completion is sent only with the mark that keeps everything else from being sent. -/
structure Moves (c : CContext) (t : Transfer) : Prop where
  keeps : Keeps c t.context
  sent : t.completed = true → t.context.Sent = true

theorem moves_finishChunks (env : Sending) (s : Chunks) {c d : CContext} (h : Keeps c d) :
    Moves c (finishChunks env s d) := by
  have hsent : Keeps c { d with Sent := true } :=
    ⟨h.id, h.download, h.queueOk, h.uploading, h.hasError, h.isOpen⟩
  have hmarked (t : Transfer) (ht : t.context = { d with Sent := true }) : Moves c t :=
    ⟨ht ▸ hsent, fun _ ↦ by rw [ht]⟩
  have hopen (t : Transfer) (ht : t.context = d) (hnone : t.completed = false) : Moves c t :=
    ⟨ht ▸ h, fun hcompleted ↦ absurd (hnone.symm.trans hcompleted) Bool.false_ne_true⟩
  rw [finishChunks]
  dsimp only
  split_ifs
  all_goals first | exact hmarked _ rfl | exact hopen _ rfl rfl

theorem moves_sendNext (env : Sending) (c : CContext) : Moves c (sendNext env c) := by
  have hread := keeps_read c
  rw [sendNext]
  split
  · next heq =>
    rw [heq] at hread
    exact ⟨hread, fun hfalse ↦ absurd hfalse Bool.false_ne_true⟩
  · next heq =>
    rw [heq] at hread
    exact moves_finishChunks env _ hread

theorem moves_sendFile (env : Sending) (c : CContext) : Moves c (sendFile env c) := by
  have hread := keeps_read c
  rw [sendFile]
  split
  · next heq =>
    rw [heq] at hread
    exact ⟨hread, fun hfalse ↦ absurd hfalse Bool.false_ne_true⟩
  · next heq =>
    rw [heq] at hread
    exact moves_finishChunks env _ ⟨hread.id, hread.download, hread.queueOk, hread.uploading,
      hread.hasError, fun _ ↦ rfl⟩

/-- The requests of a transfer behind chunks that are unanswered. -/
theorem Moves.unanswered {c : CContext} {t : Transfer} (h : Moves c t) (k : ℕ) :
    Unanswered t.context.id t.context.Sent
      (List.replicate k ⟨t.context.id, .idUploading⟩ ++ t.requests) := by
  rw [Transfer.requests, ← List.append_assoc, List.replicate_append_replicate]
  split_ifs with hcompleted
  · exact .completed _ (h.sent hcompleted)
  · rw [List.append_nil]
    exact .chunks _

/-- Something has failed, and the context says so. -/
def Fails (env : Sending) (t : Transfer) : Prop := t.ok = false ∧ (t.result env).HasError = true

instance (env : Sending) (t : Transfer) : Decidable (Fails env t) :=
  inferInstanceAs (Decidable (_ ∧ _))

theorem Transfer.result_of_failed {env : Sending} {t : Transfer} (h : t.ok = false) :
    t.result env = { t.context with ErrorCode := env.errno, ErrMsg := env.strerror } :=
  if_neg (Bool.eq_false_iff.1 h)

/-- A completion that is not sent is an error. -/
theorem finishChunks_completed {env : Sending} {s : Chunks} {c : CContext}
    (h : (finishChunks env s c).ok = false) : (finishChunks env s c).completed = false := by
  rw [finishChunks] at h ⊢
  dsimp only at h ⊢
  split_ifs at h ⊢
  all_goals first | rfl | exact h

theorem Transfer.requests_of_not_completed {t : Transfer} (h : t.completed = false) :
    t.requests = List.replicate t.chunks ⟨t.context.id, .idUploading⟩ := by
  rw [Transfer.requests, h, if_neg Bool.false_ne_true, List.append_nil]

theorem filter_requests (t : Transfer) : t.requests.filter Concerns = t.requests := by
  rw [List.filter_eq_self]
  intro r hr
  rcases List.mem_append.1 hr with hr | hr
  · rw [List.eq_of_mem_replicate hr]
    rfl
  · split_ifs at hr
    · rw [List.mem_singleton.1 hr]
      rfl
    · cases hr

/-- **A transfer that does not fail** keeps its file at the front. -/
theorem Moves.front {c : CContext} {t : Transfer} {env : Sending} {rest : List CContext}
    (h : Moves c t) (hc : c.Active) (hrest : ∀ d ∈ rest, d.Waiting) (hfail : ¬ Fails env t) (k : ℕ) :
    Front (t.result env :: rest)
      (List.replicate k ⟨t.context.id, .idUploading⟩ ++ t.requests) := by
  have hactive := h.keeps.active hc
  rw [Transfer.result]
  split_ifs with hok
  · exact .busy hactive hrest (h.unanswered k)
  · have hok' := Bool.eq_false_iff.2 hok
    have herr : (t.result env).HasError = false := Bool.eq_false_iff.2 fun herr ↦ hfail ⟨hok', herr⟩
    rw [Transfer.result_of_failed hok'] at herr
    exact .busy ⟨hactive.isOpen, herr, hactive.uploading⟩ hrest (h.unanswered k)

theorem sendNext_completed {env : Sending} {c : CContext} (h : (sendNext env c).ok = false) :
    (sendNext env c).completed = false := by
  rw [sendNext] at h ⊢
  split at h
  · rfl
  · exact finishChunks_completed h

theorem sendFile_completed {env : Sending} {c : CContext} (h : (sendFile env c).ok = false) :
    (sendFile env c).completed = false := by
  rw [sendFile] at h ⊢
  split at h
  · rfl
  · exact finishChunks_completed h

/-! ### The session -/

namespace Session

variable {maxDownloading : ℕ} {s : Session}

/-- What the server has not processed, and what it has answered to. -/
def unanswered (s : Session) : List Request :=
  (s.replies.map Reply.request ++ s.requests).filter Concerns

theorem unanswered_append (l : List Request) :
    ({ s with requests := s.requests ++ l } : Session).unanswered =
      s.unanswered ++ l.filter Concerns := by
  rw [unanswered, unanswered, ← List.append_assoc, List.filter_append]

/-- What is known of a session in every state of a run. -/
structure Sound (s : Session) : Prop where
  front : Front s.m_vContext s.unanswered
  processed : ∀ r ∈ s.replies, r.request ∈ s.processed
  honest : s.Honest

theorem callDownload_eq (c : CContext) (code : ℤ) (message : String) :
    ∃ calls, s.callDownload c code message = { s with calls := calls } ∧
      ∀ call ∈ calls, call ∈ s.calls ∨ c.Download = true ∧ call = ⟨c.id, code, message⟩ := by
  rw [callDownload]
  split_ifs with hgiven
  · refine ⟨_, rfl, fun call hcall ↦ ?_⟩
    rcases List.mem_append.1 hcall with hcall | hcall
    · exact .inl hcall
    · exact .inr ⟨hgiven, List.mem_singleton.1 hcall⟩
  · exact ⟨_, rfl, fun call hcall ↦ .inl hcall⟩

/-- A call with code 0 is for a file that is completed. -/
theorem Honest.callDownload (h : s.Honest) {c : CContext} {code : ℤ} {message : String}
    (hcode : c.Download = true → code = 0 → ⟨c.id, .idUploadCompleted⟩ ∈ s.processed) :
    (s.callDownload c code message).Honest := by
  obtain ⟨calls, heq, hcalls⟩ := callDownload_eq (s := s) c code message
  rw [heq]
  refine ⟨fun call hcall hzero ↦ ?_, h.accounted⟩
  rcases hcalls call hcall with hcall | ⟨hgiven, rfl⟩
  · exact h.success call hcall hzero
  · exact hcode hgiven hzero

/-- The second loop removes the errors. -/
theorem popErrors_sound {v : List CContext} {l : List Request} (hv : Opened v l)
    (hl : s.unanswered = l) (hprocessed : ∀ r ∈ s.replies, r.request ∈ s.processed)
    (hhonest : s.Honest) : (popErrors v s).Sound := by
  induction hv generalizing s with
  | @front v l hfront =>
    have hkeep (hv : popErrors v s = { s with m_vContext := v }) : (popErrors v s).Sound := by
      rw [hv]
      exact ⟨hl ▸ hfront, hprocessed, hhonest.success, hhonest.accounted⟩
    refine hkeep ?_
    cases v with
    | nil => rfl
    | cons c rest =>
      have herr : c.HasError = false := by
        cases hfront with
        | idle hwait => exact (hwait c List.mem_cons_self).noError
        | busy hc => exact hc.noError
      rw [popErrors, if_neg (Bool.eq_false_iff.1 herr)]
  | @error c v l hcode herr _ ih =>
    rw [popErrors, if_pos herr]
    obtain ⟨calls, heq, -⟩ := callDownload_eq (s := s) c c.ErrorCode c.ErrMsg
    have hcall : (s.callDownload c c.ErrorCode c.ErrMsg).Honest :=
      hhonest.callDownload fun _ hzero ↦ absurd hzero hcode
    rw [heq] at hcall ⊢
    exact ih hl hprocessed hcall

/-- **`OnPostProcessing`** opens a file only when nothing is unanswered. -/
theorem onPostProcessing_sound (h : s.Sound) (env : ℕ → Opening) :
    (OnPostProcessing maxDownloading env s).Sound := by
  have hopened := h.front.opened maxDownloading env
  refine popErrors_sound hopened ?_ h.processed ⟨h.honest.success, h.honest.accounted⟩
  rw [unanswered_append, ← hopened.filter, List.filter_append, h.front.filter]

theorem unanswered_eq_nil :
    s.unanswered = [] ↔ ∀ r ∈ s.replies.map Reply.request ++ s.requests, Concerns r = false := by
  rw [unanswered, List.filter_eq_nil_iff]
  simp only [Bool.not_eq_true]

/-- Fewer requests leave nothing unanswered where more did not. -/
theorem unanswered_of_subset {l : List Request} (h : s.unanswered = []) (hl : l ⊆ s.requests) :
    ({ s with requests := l } : Session).unanswered = [] :=
  unanswered_eq_nil.2 fun r hr ↦ unanswered_eq_nil.1 h r <| List.mem_append.2 <|
    (List.mem_append.1 hr).imp_right fun hr ↦ hl hr

/-- The front is removed, with a call that tells the error. -/
theorem dropFront_eq {ctx : CContext} (hhonest : s.Honest)
    (hcode : ctx.Download = true → ctx.ErrorCode ≠ 0) :
    ∃ calls, dropFront ctx s = { s with m_vContext := s.m_vContext.tail, calls := calls } ∧
      ({ s with calls := calls } : Session).Honest := by
  obtain ⟨calls, heq, -⟩ := callDownload_eq (s := s) ctx ctx.ErrorCode ctx.ErrMsg
  have hcall : (s.callDownload ctx ctx.ErrorCode ctx.ErrMsg).Honest :=
    hhonest.callDownload fun hgiven hzero ↦ absurd hzero (hcode hgiven)
  rw [heq] at hcall
  exact ⟨calls, by rw [dropFront, heq], hcall⟩

/-- `AbortJob` only takes requests out. -/
theorem abortJob_eq (takenBack sent : ℕ) (ctx : CContext) :
    abortJob takenBack sent ctx s = { s with
      requests := s.requests.take (s.requests.length -
        if ctx.QueueOk then min takenBack sent else 0) } := by
  rw [abortJob]
  split_ifs
  · rfl
  · rw [Nat.sub_zero, List.take_length]

/-! ### The condition -/

/-- A reply to `idUpload`: the error of the server has a number, and so has that of a transfer that
fails, of which no chunk is under way. -/
def CleanUpload (env : Sending) (c : CContext) (res : ℤ) (errMsg : String) : Prop :=
  let t := sendFile env { c with QueueOk := env.startJob }
  if res ≠ 0 ∨ errMsg ≠ "" then c.Download = true → res ≠ 0
  else Fails env t → (c.Download = true → env.errno ≠ 0) ∧
    (t.chunks = 0 ∨ env.startJob = true ∧ t.chunks ≤ env.takenBack)

/-- A reply to `idUploading`: no other is expected when there is an error, and it has a number. -/
def CleanUploading (env : Sending) (c : CContext) (uploaded res : ℤ) (errMsg : String)
    (unanswered : List Request) : Prop :=
  let t := sendNext env c
  if uploaded < 0 ∨ res ≠ 0 ∨ errMsg ≠ "" then
    res ≠ 0 ∨ errMsg ≠ "" → (c.Download = true → res ≠ 0) ∧ unanswered = []
  else c.Sent = false → Fails env t →
    (c.Download = true → env.errno ≠ 0) ∧ t.chunks = 0 ∧ unanswered = []

/-- What is asked of the handling of a reply, where the others are unanswered. -/
def CleanReply (env : Sending) (c : CContext) (unanswered : List Request) (r : Reply) : Prop :=
  match r.request.reqId, r.answer with
  | .idUpload, .upload res errMsg => CleanUpload env c res errMsg
  | .idUploading, .uploading uploaded res errMsg =>
    CleanUploading env c uploaded res errMsg unanswered
  | _, _ => True

/-- **A file is dropped only when nothing of it is unanswered**, and then with an error number. -/
def Clean (s : Session) : Action → Prop
  | .OnResultReturned env _ =>
    match s.replies, s.m_vContext with
    | r :: replies, c :: _ => CleanReply env c ({ s with replies := replies }).unanswered r
    | _, _ => True
  | _ => True

instance (env : Sending) (c : CContext) (res : ℤ) (errMsg : String) :
    Decidable (CleanUpload env c res errMsg) := by
  unfold CleanUpload
  infer_instance

instance (env : Sending) (c : CContext) (uploaded res : ℤ) (errMsg : String) (l : List Request) :
    Decidable (CleanUploading env c uploaded res errMsg l) := by
  unfold CleanUploading
  infer_instance

instance (env : Sending) (c : CContext) (l : List Request) (r : Reply) :
    Decidable (CleanReply env c l r) := by
  unfold CleanReply
  split <;> infer_instance

instance (s : Session) (a : Action) : Decidable (Clean s a) := by
  unfold Clean
  split
  · split <;> infer_instance
  · infer_instance

/-! ### Replies -/

/-- What a handler finds when it takes a context from the front. -/
structure Head (s : Session) (c : CContext) (rest : List CContext) : Prop where
  contexts : s.m_vContext = c :: rest
  waiting : ∀ d ∈ rest, d.Waiting
  processed : ∀ r ∈ s.replies, r.request ∈ s.processed
  honest : s.Honest

variable {c : CContext} {rest : List CContext} {env : Sending} {res : ℤ} {errMsg : String}

/-- **A file is dropped** when nothing of it is left unanswered. -/
theorem drop_sound (h : s.Head c rest) {ctx : CContext}
    (hcode : ctx.Download = true → ctx.ErrorCode ≠ 0) {takenBack sent : ℕ}
    (hun : (abortJob takenBack sent ctx s).unanswered = []) :
    (abortJob takenBack sent ctx (dropFront ctx s)).Sound := by
  obtain ⟨calls, heq, hcall⟩ := dropFront_eq h.honest hcode
  rw [abortJob_eq] at hun ⊢
  rw [heq]
  refine ⟨?_, h.processed, ⟨hcall.success, hcall.accounted⟩⟩
  have hfront : Front s.m_vContext.tail [] := by
    rw [h.contexts]
    exact .idle h.waiting
  rw [← hun] at hfront
  exact hfront

theorem onUploadCompleted_sound (h : s.Head c rest) (hc : c.Active) (hun : s.unanswered = [])
    (hdone : ⟨c.id, .idUploadCompleted⟩ ∈ s.processed) (post : ℕ → Opening) :
    (onUploadCompleted maxDownloading post s).Sound := by
  obtain ⟨calls, heq, -⟩ := callDownload_eq (s := s) c 0 ""
  have hcall : (s.callDownload c 0 "").Honest := h.honest.callDownload fun _ _ ↦ hdone
  rw [onUploadCompleted, h.contexts]
  dsimp only
  rw [if_pos hc.isOpen]
  rw [heq] at hcall ⊢
  have hfront : Front rest s.unanswered := by
    rw [hun]
    exact .idle h.waiting
  have hsound : ({ s with m_vContext := rest, calls := calls } : Session).Sound :=
    ⟨hfront, h.processed, ⟨hcall.success, hcall.accounted⟩⟩
  exact onPostProcessing_sound hsound post

theorem filter_backup (env : Sending) (c : CContext) : (backup env c).filter Concerns = [] := by
  rw [backup]
  split_ifs <;> rfl

/-- What is left when a transfer fails was taken out of the client queue, or never sent. -/
theorem onUpload_sound (h : s.Head c rest) (hc : c.Active) (hun : s.unanswered = [])
    (hclean : CleanUpload env c res errMsg) (post : ℕ → Opening) :
    (onUpload maxDownloading env post res errMsg s).Sound := by
  rw [CleanUpload] at hclean
  rw [onUpload, h.contexts]
  dsimp only at hclean ⊢
  generalize ht : sendFile env { c with QueueOk := env.startJob } = t at hclean ⊢
  have hmoves : Moves { c with QueueOk := env.startJob } t := ht ▸ moves_sendFile _ _
  have hsent (l : List Request) (hl : l.filter Concerns = []) :
      ({ s with requests := s.requests ++ l } : Session).unanswered = [] := by
    rw [unanswered_append, hun, hl]
    rfl
  split_ifs with herr hfail
  · -- an error of the server
    rw [if_pos herr] at hclean
    refine onPostProcessing_sound (drop_sound h hclean ?_) post
    rw [abortJob_eq]
    exact unanswered_of_subset hun (List.take_subset _ _)
  · -- a chunk that is not sent or not read
    rw [if_neg herr] at hclean
    obtain ⟨hnonzero, hleft⟩ := hclean hfail
    have hrequests : t.requests = List.replicate t.chunks ⟨t.context.id, .idUploading⟩ :=
      Transfer.requests_of_not_completed (ht ▸ sendFile_completed (ht ▸ hfail.1))
    have hresult : t.result env = _ := Transfer.result_of_failed hfail.1
    have hhead : ({ s with
        m_vContext := t.result env :: rest
        requests := s.requests ++ (backup env { c with QueueOk := env.startJob } ++ t.requests) } :
        Session).Head (t.result env) rest :=
      ⟨rfl, h.waiting, h.processed, ⟨h.honest.success, h.honest.accounted⟩⟩
    refine onPostProcessing_sound (drop_sound hhead (fun hgiven ↦ ?_) ?_) post
    · rw [hresult] at hgiven ⊢
      exact hnonzero (hmoves.keeps.download ▸ hgiven)
    · have hback := hsent (backup env { c with QueueOk := env.startJob }) (filter_backup _ _)
      rw [abortJob_eq]
      refine unanswered_of_subset (s := { s with
        m_vContext := t.result env :: rest
        requests := s.requests ++ backup env { c with QueueOk := env.startJob } }) hback ?_
      show List.take _ (s.requests ++ (_ ++ t.requests)) ⊆ s.requests ++ _
      have hqueue : (t.result env).QueueOk = env.startJob := by
        rw [hresult]
        exact hmoves.keeps.queueOk
      rcases hleft with hzero | ⟨hstarted, hback⟩
      · rw [hrequests, hzero, List.replicate_zero, List.append_nil]
        exact List.take_subset _ _
      · rw [hqueue, if_pos hstarted, ← List.append_assoc, hrequests]
        rw [List.take_append_of_le_length]
        · exact List.take_subset _ _
        · simp only [List.length_append, List.length_replicate]
          omega
  · -- the transfer goes on, or has ended
    have hpending : Front (t.result env :: rest) t.requests :=
      hmoves.front ⟨hc.isOpen, hc.noError, hc.uploading⟩ h.waiting hfail 0
    refine ⟨?_, h.processed, ⟨h.honest.success, h.honest.accounted⟩⟩
    have hun' : ({ s with
        m_vContext := t.result env :: rest
        requests := s.requests ++ (backup env { c with QueueOk := env.startJob } ++ t.requests) } :
        Session).unanswered = t.requests := by
      have happend := unanswered_append (s := { s with m_vContext := t.result env :: rest })
        (backup env { c with QueueOk := env.startJob } ++ t.requests)
      rw [happend, List.filter_append, filter_backup, hpending.filter]
      show s.unanswered ++ _ = _
      rw [hun]
      rfl
    rw [hun']
    exact hpending

theorem abortJob_none (ctx : CContext) : abortJob 0 0 ctx s = s := by
  rw [abortJob_eq, Nat.min_self, ite_self, Nat.sub_zero, List.take_length]

theorem dropFront_sound (h : s.Head c rest) {ctx : CContext}
    (hcode : ctx.Download = true → ctx.ErrorCode ≠ 0) (hun : s.unanswered = []) :
    (dropFront ctx s).Sound := by
  have hdrop := drop_sound h hcode ((abortJob_none (s := s) ctx).symm ▸ hun)
  rwa [abortJob_none] at hdrop

/-- An acknowledgement of a chunk, with others behind it. -/
theorem onUploading_sound (h : s.Head c rest) (hc : c.Active)
    (hun : Unanswered c.id c.Sent s.unanswered)
    (hchunks : c.Sent = false → ∃ k, s.unanswered = List.replicate k ⟨c.id, .idUploading⟩)
    {uploaded : ℤ} (hclean : CleanUploading env c uploaded res errMsg s.unanswered)
    (post : ℕ → Opening) :
    (onUploading maxDownloading env post uploaded res errMsg s).Sound := by
  rw [CleanUploading] at hclean
  rw [onUploading, h.contexts]
  dsimp only at hclean ⊢
  split_ifs with herr hreported hsent hfail
  · -- an error of the server
    rw [if_pos herr] at hclean
    obtain ⟨hnonzero, hnone⟩ := hclean (CContext.hasError_iff.1 hreported)
    have hhead : ({ s with m_vContext := { c with ErrorCode := res, ErrMsg := errMsg } :: rest } :
        Session).Head { c with ErrorCode := res, ErrMsg := errMsg } rest :=
      ⟨rfl, h.waiting, h.processed, ⟨h.honest.success, h.honest.accounted⟩⟩
    exact onPostProcessing_sound (dropFront_sound hhead hnonzero hnone) post
  · -- a position that is negative, and no error
    have hfront : Front ({ c with ErrorCode := res, ErrMsg := errMsg } :: rest) s.unanswered :=
      .busy ⟨hc.isOpen, Bool.eq_false_iff.2 hreported, hc.uploading⟩ h.waiting hun
    exact ⟨hfront, h.processed, ⟨h.honest.success, h.honest.accounted⟩⟩
  · have hfront : Front s.m_vContext s.unanswered := by
      rw [h.contexts]
      exact .busy hc h.waiting hun
    exact ⟨hfront, h.processed, h.honest⟩
  · -- a chunk that is not sent or not read
    rw [if_neg herr] at hclean
    obtain ⟨hnonzero, hzero, hnone⟩ := hclean (Bool.eq_false_iff.2 hsent) hfail
    have hmoves := moves_sendNext env c
    have hnothing : (sendNext env c).requests = [] := by
      rw [Transfer.requests_of_not_completed (sendNext_completed hfail.1), hzero,
        List.replicate_zero]
    have hhead : ({ s with
        m_vContext := (sendNext env c).result env :: rest
        requests := s.requests ++ (sendNext env c).requests } : Session).Head
          ((sendNext env c).result env) rest :=
      ⟨rfl, h.waiting, h.processed, ⟨h.honest.success, h.honest.accounted⟩⟩
    refine onPostProcessing_sound (dropFront_sound hhead (fun hgiven ↦ ?_) ?_) post
    · rw [Transfer.result_of_failed hfail.1] at hgiven ⊢
      exact hnonzero (hmoves.keeps.download ▸ hgiven)
    · rw [hnothing, List.append_nil]
      exact hnone
  · -- the transfer goes on, or has ended
    obtain ⟨k, hk⟩ := hchunks (Bool.eq_false_iff.2 hsent)
    have hmoves := moves_sendNext env c
    have hpending := hmoves.front hc h.waiting hfail k
    rw [hmoves.keeps.id, ← hk] at hpending
    refine ⟨?_, h.processed, ⟨h.honest.success, h.honest.accounted⟩⟩
    have happend : ({ s with
        m_vContext := (sendNext env c).result env :: rest
        requests := s.requests ++ (sendNext env c).requests } : Session).unanswered =
        s.unanswered ++ (sendNext env c).requests := by
      have happend := unanswered_append (s := s) (sendNext env c).requests
      rw [filter_requests] at happend
      exact happend
    rw [happend]
    exact hpending

/-! ### One step -/

/-- What is left when a reply is taken. -/
theorem front_taken {v : List CContext} {r : Request} {l : List Request}
    (h : Front v ([r].filter Concerns ++ l)) : Front v l := by
  cases hr : Concerns r with
  | false => rwa [List.filter_singleton, hr] at h
  | true =>
    rw [List.filter_singleton, hr] at h
    cases h with
    | busy hc hrest hl => exact .busy hc hrest hl.next.rest

/-- **The front context is the one that a reply is about.** -/
theorem front_head {v : List CContext} {r : Request} {l : List Request} (hr : Concerns r = true)
    (h : Front v ([r].filter Concerns ++ l)) :
    ∃ c rest, v = c :: rest ∧ c.Active ∧ (∀ d ∈ rest, d.Waiting) ∧ Next c.id c.Sent r l := by
  rw [List.filter_singleton, hr] at h
  cases h with
  | busy hc hrest hl => exact ⟨_, _, rfl, hc, hrest, hl.next⟩

theorem account_head {r : Request} (h : s.Head c rest) (howner : r.owner = c.id) :
    (s.account r).Head c rest := by
  refine ⟨h.contexts, h.waiting, h.processed, ⟨h.honest.success, fun a ha ↦ ?_⟩⟩
  rcases List.mem_append.1 ha with ha | ha
  · exact h.honest.accounted a ha
  · rw [List.mem_singleton.1 ha, h.contexts, howner]
    rfl

/-- **One reply.** -/
theorem handle_sound {r : Reply}
    (hfront : Front s.m_vContext ([r.request].filter Concerns ++ s.unanswered))
    (hdone : r.request ∈ s.processed) (hprocessed : ∀ r ∈ s.replies, r.request ∈ s.processed)
    (hhonest : s.Honest)
    (hclean : ∀ c rest, s.m_vContext = c :: rest → CleanReply env c s.unanswered r)
    (post : ℕ → Opening) : (handle maxDownloading env post r s).Sound := by
  obtain ⟨⟨owner, reqId⟩, answer⟩ := r
  have hskip : s.Sound := ⟨front_taken hfront, hprocessed, hhonest⟩
  have hconcerned (hr : Concerns ⟨owner, reqId⟩ = true) := front_head hr hfront
  cases reqId with
  | idUpload =>
    cases answer with
    | upload res errMsg =>
      obtain ⟨c, rest, hv, hc, hrest, hnext⟩ := hconcerned rfl
      exact onUpload_sound ⟨hv, hrest, hprocessed, hhonest⟩ hc (hnext.alone (by simp))
        (hclean c rest hv) post
    | uploading | other => exact hskip
  | idUploading =>
    cases answer with
    | uploading uploaded res errMsg =>
      obtain ⟨c, rest, hv, hc, hrest, hnext⟩ := hconcerned rfl
      exact onUploading_sound (account_head ⟨hv, hrest, hprocessed, hhonest⟩ hnext.owner) hc
        hnext.rest hnext.chunks (hclean c rest hv) post
    | upload | other => exact hskip
  | idUploadCompleted =>
    obtain ⟨c, rest, hv, hc, hrest, hnext⟩ := hconcerned rfl
    have howner : owner = c.id := hnext.owner
    exact onUploadCompleted_sound (account_head ⟨hv, hrest, hprocessed, hhonest⟩ howner) hc
      (hnext.alone (by simp)) (howner ▸ hdone) post
  | idUploadBackup | idDownload => exact hskip

/-- A file is queued behind the others. -/
theorem front_push {v : List CContext} {l : List Request} (h : Front v l) {c : CContext}
    (hc : c.Waiting) : Front (v ++ [c]) l := by
  have hlast {v : List CContext} (hv : ∀ d ∈ v, d.Waiting) : ∀ d ∈ v ++ [c], d.Waiting :=
    fun d hd ↦ (List.mem_append.1 hd).elim (hv d) fun hd ↦ List.mem_singleton.1 hd ▸ hc
  cases h with
  | idle hwait => exact .idle (hlast hwait)
  | busy hactive hrest hl => exact .busy hactive (hlast hrest) hl

/-- **One step.** -/
theorem step_sound {t : Session} {a : Action} (h : s.Sound) (hclean : Clean s a)
    (hstep : step maxDownloading s a = some t) : t.Sound := by
  cases a with
  | Upload up aborted =>
    obtain rfl := Option.some.inj hstep
    exact ⟨front_push h.front (waiting_new _ up aborted), h.processed,
      ⟨h.honest.success, h.honest.accounted⟩⟩
  | OnPostProcessing env =>
    obtain rfl := Option.some.inj hstep
    exact onPostProcessing_sound h env
  | serve disk =>
    rw [step] at hstep
    split at hstep
    · cases hstep
    · next r requests hrequests =>
      obtain rfl := Option.some.inj hstep
      refine ⟨?_, fun r' hr' ↦ ?_, ⟨fun c hc hzero ↦ ?_, h.honest.accounted⟩⟩
      · have hfront := h.front
        rw [unanswered, hrequests, List.append_cons] at hfront
        rw [unanswered, List.map_append]
        exact hfront
      · rcases List.mem_append.1 hr' with hr' | hr'
        · exact List.mem_append_left _ (h.processed r' hr')
        · rw [List.mem_singleton.1 hr']
          exact List.mem_append_right _ List.mem_cons_self
      · exact List.mem_append_left _ (h.honest.success c hc hzero)
  | OnResultReturned env post =>
    rw [step] at hstep
    split at hstep
    · cases hstep
    · next r replies hreplies =>
      obtain rfl := Option.some.inj hstep
      have hprocessed := h.processed
      rw [hreplies] at hprocessed
      obtain ⟨hdone, hprocessed⟩ := List.forall_mem_cons.1 hprocessed
      have hfront := h.front
      rw [unanswered, hreplies, List.map_cons, List.cons_append, ← List.singleton_append,
        List.filter_append] at hfront
      refine handle_sound (s := { s with replies := replies }) hfront hdone hprocessed
        ⟨h.honest.success, h.honest.accounted⟩ (fun c rest hv ↦ ?_) post
      have hv' : s.m_vContext = c :: rest := hv
      rw [Clean, hreplies, hv'] at hclean
      exact hclean

theorem initial_sound : initial.Sound :=
  ⟨.idle fun _ hc ↦ absurd hc List.not_mem_nil, fun _ hr ↦ absurd hr List.not_mem_nil,
    ⟨fun _ hc ↦ absurd hc List.not_mem_nil, fun _ ha ↦ absurd ha List.not_mem_nil⟩⟩

/-- **Success is honest in every clean run.** -/
theorem uploads_honest (maxDownloading : ℕ) (as : List Action) {s : Session}
    (hrun : run (step maxDownloading) initial as = some s)
    (hclean : Within (step maxDownloading) Clean initial as) : s.Honest :=
  (invariant_of_within (fun _ _ _ h hclean hstep ↦ step_sound h hclean hstep) as initial_sound hclean
    hrun).honest

/-- Every request is sent, every file is read, and no client queue is in use. -/
def allSent : Sending := ⟨false, false, true, fun _ ↦ true, true, fun _ ↦ false, 0, "Success", 0⟩

/-- The second file cannot be opened; the others have the bytes of two chunks and five more. -/
def someFiles : ℕ → Opening
  | 1 => ⟨⟨none, -1, "", by decide, by decide⟩, true, 0, ""⟩
  | _ => ⟨⟨some [.bytes 10240, .bytes 10240, .bytes 5], 0, "", by decide, by decide⟩, true, 0, ""⟩

/-- The disk of the server is full for one chunk. -/
def fullDisk : Disk := ⟨none, none, some ⟨28, "No space left on device"⟩, -1⟩

def goodDisk : Disk := ⟨none, none, none, 10240⟩

/-- Three files, of which the last is sent in parts. -/
def someActions : List Action :=
  [.Upload true true, .Upload true false, .Upload true true, .OnPostProcessing someFiles,
    .serve goodDisk, .OnResultReturned allSent someFiles, .serve goodDisk, .serve goodDisk,
    .OnResultReturned allSent someFiles, .serve goodDisk, .serve goodDisk,
    .OnResultReturned allSent someFiles, .OnResultReturned allSent someFiles,
    .OnResultReturned allSent someFiles, .serve goodDisk,
    .OnResultReturned { allSent with full := fun _ ↦ true } someFiles, .serve goodDisk,
    .OnResultReturned allSent someFiles]

theorem uploads_honest_someActions :
    (run (step 1) initial someActions).isSome = true ∧
      ∀ s, run (step 1) initial someActions = some s → s.Honest :=
  ⟨by decide +kernel, fun _ hrun ↦ uploads_honest 1 someActions hrun (by decide +kernel)⟩

/-- The first chunk of the first file is not written, with two more and the completion behind it. -/
def failedActions : List Action :=
  [.Upload true true, .Upload true true, .OnPostProcessing fun _ ↦ someFiles 0, .serve goodDisk,
    .OnResultReturned allSent fun _ ↦ someFiles 0, .serve fullDisk, .serve goodDisk, .serve goodDisk,
    .serve goodDisk, .OnResultReturned allSent fun _ ↦ someFiles 0,
    .OnResultReturned allSent fun _ ↦ someFiles 0, .OnResultReturned allSent fun _ ↦ someFiles 0,
    .OnResultReturned allSent fun _ ↦ someFiles 0]

/-- **The second file succeeds** with the completion of the first: the server has not even been
asked to open it. -/
theorem upload_dishonest :
    ¬ ∀ (maxDownloading : ℕ) (as : List Action) (s : Session),
      run (step maxDownloading) initial as = some s → s.Honest := by
  intro h
  have hrun : (run (step 1) initial failedActions).map (fun s ↦ (s.calls, s.processed)) =
      some ([⟨0, 28, "No space left on device"⟩, ⟨1, 0, ""⟩],
        [⟨0, .idUpload⟩, ⟨0, .idUploading⟩, ⟨0, .idUploading⟩, ⟨0, .idUploading⟩,
          ⟨0, .idUploadCompleted⟩]) := by
    decide +kernel
  obtain ⟨s, hs, heq⟩ := Option.map_eq_some_iff.1 hrun
  obtain ⟨hcalls, hprocessed⟩ := Prod.mk.inj heq
  have hdone := (h 1 failedActions s hs).success ⟨1, 0, ""⟩ (by rw [hcalls]; decide) rfl
  rw [hprocessed] at hdone
  exact absurd hdone (by decide)

end Session

end SocketPro.FileStream
