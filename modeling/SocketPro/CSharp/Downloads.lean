import SocketPro.CSharp.StreamingFile

/-!
# Downloads that never mix

The contexts in `m_vContext` are in line: those that `OnPostProcessing` has visited come before the
fresh ones. Those whose requests were `sent` stand in the order in which the server answers, so the
frames on the wire are those of the `sent` requests, one after the other (`Wired.live`), and a frame
that comes is one of the front context.

**What goes wrong.** A context whose write fails is removed at once, and the rest of its answer is
still to come (`Wired.dead`). As long as `m_vContext` is empty the client drops these frames; a
context that is there by then takes them for its own.

* `downloads_never_mix` — in every run whose steps are `Orderly` the downloads never mix;
* `download_mixed` — after a failed write the next file gets the payloads of the failed one.
-/

namespace SocketPro.CSharp.StreamingFile

open Machine CStreamingFile

variable {env : Environment} {s t : CStreamingFile}

/-! ### The frames of an answer -/

/-- The payloads among some frames. -/
def payloadsOf (frames : List Frame) : List (List UInt8) :=
  frames.filterMap fun
    | .downloading buffer => some buffer
    | _ => none

/-- The frame starts an answer. -/
def Frame.isStart : Frame → Bool
  | .startDownloading .. => true
  | _ => false

theorem payloadsOf_append (l m : List Frame) :
    payloadsOf (l ++ m) = payloadsOf l ++ payloadsOf m := List.filterMap_append

theorem payloadsOf_map (payloads : List (List UInt8)) :
    payloadsOf (payloads.map .downloading) = payloads := by
  rw [payloadsOf, List.filterMap_map]
  exact List.filterMap_some

theorem payloadsOf_frames (a : Answer) : payloadsOf a.frames = a.payloads := by
  show payloadsOf (a.payloads.map .downloading ++ [.download a.res a.errMsg]) = a.payloads
  rw [payloadsOf_append, payloadsOf_map]
  exact List.append_nil _

theorem frames_ne_nil (a : Answer) : a.frames ≠ [] := List.cons_ne_nil _ _

variable {a : Answer} {past cur : List Frame}

/-- Nothing but the first frame starts an answer. -/
theorem past_of_isStart {f : Frame} (h : a.frames = past ++ f :: cur) (hf : f.isStart) :
    past = [] ∧ cur ≠ [] := by
  rcases past with _ | ⟨g, past⟩
  · refine ⟨rfl, ?_⟩
    rintro rfl
    have hlen := congrArg List.length h
    simp [Answer.frames] at hlen
  · have htail := (List.cons.inj h).2
    have hmem : f ∈ a.payloads.map .downloading ++ [.download a.res a.errMsg] := by
      rw [htail]
      exact List.mem_append_right _ List.mem_cons_self
    rcases List.mem_append.1 hmem with hmem | hmem
    · obtain ⟨b, -, rfl⟩ := List.mem_map.1 hmem
      exact nomatch hf
    · obtain rfl := List.mem_singleton.1 hmem
      exact nomatch hf

/-- Behind the first frame nothing starts an answer. -/
theorem not_isStart_of_mem {f : Frame} (h : a.frames = past ++ f :: cur) :
    ∀ g ∈ cur, ¬ g.isStart := by
  intro g hg hstart
  obtain ⟨l, m, rfl⟩ := List.append_of_mem hg
  rw [← List.cons_append, ← List.append_assoc] at h
  have hpast := (past_of_isStart h hstart).1
  exact absurd (List.append_eq_nil_iff.1 hpast).2 (List.cons_ne_nil _ _)

theorem prefix_of_downloading {b : List UInt8} (h : a.frames = past ++ .downloading b :: cur) :
    payloadsOf past <+: a.payloads ∧ cur ≠ [] := by
  refine ⟨⟨payloadsOf (.downloading b :: cur), ?_⟩, ?_⟩
  · rw [← payloadsOf_append, ← h, payloadsOf_frames]
  · rintro rfl
    have hlast := congrArg List.getLast? h
    rw [Answer.frames, ← List.cons_append, List.getLast?_concat, List.getLast?_concat] at hlast
    exact nomatch Option.some.inj hlast

/-- The last frame of an answer comes when all payloads have come. -/
theorem past_of_download {res : ℤ} {errMsg : String}
    (h : a.frames = past ++ .download res errMsg :: cur) :
    payloadsOf past = a.payloads ∧ cur = [] := by
  have hcur : cur = [] := by
    rcases List.eq_nil_or_concat cur with rfl | ⟨init, g, rfl⟩
    · rfl
    · rw [List.concat_eq_append, Answer.frames, ← List.cons_append, ← List.cons_append,
        ← List.append_assoc] at h
      have hinit := List.append_inj_left' h rfl
      have hmem : Frame.download res errMsg ∈
          .startDownloading a.fileSize a.localFile a.remoteFile a.flags a.initSize ::
            a.payloads.map .downloading := by
        rw [hinit]
        exact List.mem_append_right _ List.mem_cons_self
      rcases List.mem_cons.1 hmem with hmem | hmem
      · exact nomatch hmem
      · obtain ⟨b, -, hb⟩ := List.mem_map.1 hmem
        exact nomatch hb
  refine ⟨?_, hcur⟩
  have hpayloads := payloadsOf_frames a
  rw [h, hcur, payloadsOf_append] at hpayloads
  rw [← hpayloads]
  exact (List.append_nil _).symm

/-! ### Own payloads -/

theorem own_concat_self (k : ℕ) (b : List UInt8) (received : List (ℕ × List UInt8)) :
    own k (received ++ [(k, b)]) = own k received ++ [b] := by
  simp [own]

theorem own_concat_of_ne {k r : ℕ} (h : k ≠ r) (b : List UInt8)
    (received : List (ℕ × List UInt8)) : own r (received ++ [(k, b)]) = own r received := by
  simp [own, h]

theorem own_eq_nil {made k : ℕ} {received : List (ℕ × List UInt8)}
    (h : ∀ p ∈ received, p.1 < made) (hk : made ≤ k) : own k received = [] := by
  rw [own, List.filter_eq_nil_iff.2, List.map_nil]
  intro p hp heq
  have hlt := h p hp
  have hpk : p.1 = k := of_decide_eq_true heq
  omega

/-- What is written to a file of a request comes last. -/
theorem fileWith_concat (c : CContext) (payloads : List (List UInt8)) (b : List UInt8) :
    fileWith env c (payloads ++ [b]) = (fileWith env c payloads).Write b := by
  rw [fileWith, List.foldl_append]
  rfl

/-! ### Contexts -/

/-- `OnPostProcessing` has not visited the context. -/
def Fresh (c : CContext) : Prop := c.File = none ∧ ¬ c.HasError

/-- The request of the context was sent. -/
def Sent (c : CContext) : Prop := c.File.isSome ∧ ¬ c.HasError

instance (c : CContext) : Decidable (Sent c) := inferInstanceAs (Decidable (_ ∧ _))

/-- The requests that were sent, in their order. -/
def sent (l : List CContext) : List ℕ := (l.filter fun c ↦ Sent c).map CContext.ticket

theorem sent_cons_of_sent {c : CContext} {l : List CContext} (h : Sent c) :
    sent (c :: l) = c.ticket :: sent l := by
  rw [sent, List.filter_cons, if_pos (decide_eq_true h)]
  rfl

theorem sent_cons_of_not {c : CContext} {l : List CContext} (h : ¬ Sent c) :
    sent (c :: l) = sent l := by
  rw [sent, List.filter_cons, if_neg (fun hc ↦ h (of_decide_eq_true hc))]
  rfl

theorem Fresh.not_sent {c : CContext} (h : Fresh c) : ¬ Sent c := fun hs ↦ by
  rw [Sent, h.1] at hs
  exact absurd hs.1 (by decide)

theorem sent_of_fresh {l : List CContext} (h : ∀ c ∈ l, Fresh c) : sent l = [] := by
  rw [sent, List.filter_eq_nil_iff.2, List.map_nil]
  exact fun c hc hs ↦ (h c hc).not_sent (of_decide_eq_true hs)

theorem sent_subset {l : List CContext} {r : ℕ} (h : r ∈ sent l) :
    r ∈ l.map CContext.ticket := by
  obtain ⟨c, hc, rfl⟩ := List.mem_map.1 h
  exact List.mem_map_of_mem (List.mem_of_mem_filter hc)

/-- A context whose file has its own payloads. -/
structure Good (env : Environment) (received : List (ℕ × List UInt8)) (made : ℕ)
    (c : CContext) : Prop where
  lt : c.ticket < made
  errors : c.HasError → c.ErrCode ≠ 0
  unsent : ¬ Sent c → own c.ticket received = []
  file : ∀ f ∈ c.File, f = fileWith env c (own c.ticket received)
  /-- The first frame of the answer will not cut the file. -/
  initSize : c.File.isSome → (fileWith env c []).Position ≤ c.InitSize.toNat

theorem Good.mono {received : List (ℕ × List UInt8)} {made : ℕ} {c : CContext}
    (h : Good env received made c) : Good env received (made + 1) c :=
  ⟨Nat.lt_succ_of_lt h.lt, h.errors, h.unsent, h.file, h.initSize⟩

/-- The contexts are in order. -/
structure Contexts (env : Environment) (received : List (ℕ × List UInt8)) (made : ℕ)
    (l : List CContext) : Prop where
  /-- Behind a fresh context there are fresh ones only. -/
  line : l.Pairwise fun c c' ↦ Fresh c → Fresh c'
  nodup : (l.map CContext.ticket).Nodup
  good : ∀ c ∈ l, Good env received made c

theorem Contexts.of_sublist {received : List (ℕ × List UInt8)} {made : ℕ} {l l' : List CContext}
    (h : Contexts env received made l) (hsub : l'.Sublist l) : Contexts env received made l' :=
  ⟨h.line.sublist hsub, h.nodup.sublist (hsub.map _), fun c hc ↦ h.good c (hsub.subset hc)⟩

/-- The payload of another request. -/
theorem Good.receive {received : List (ℕ × List UInt8)} {made k : ℕ} {c : CContext}
    (h : Good env received made c) (hne : k ≠ c.ticket) (b : List UInt8) :
    Good env (received ++ [(k, b)]) made c where
  lt := h.lt
  errors := h.errors
  unsent hs := (own_concat_of_ne hne b received).trans (h.unsent hs)
  file f hf := by
    rw [own_concat_of_ne hne]
    exact h.file f hf
  initSize := h.initSize

theorem Contexts.ne_of_mem_tail {received : List (ℕ × List UInt8)} {made : ℕ}
    {tail : List CContext} {c : CContext} (h : Contexts env received made (c :: tail)) :
    ∀ x ∈ tail, c.ticket ≠ x.ticket := by
  have hnodup := h.nodup
  rw [List.map_cons, List.nodup_cons] at hnodup
  exact fun x hx heq ↦ hnodup.1 (heq ▸ List.mem_map_of_mem hx)

/-- The front context is changed. -/
theorem Contexts.replace_front {received received' : List (ℕ × List UInt8)} {made : ℕ}
    {tail : List CContext} {c c' : CContext} (h : Contexts env received made (c :: tail))
    (hticket : c'.ticket = c.ticket) (hgood : Good env received' made c')
    (htail : ∀ x ∈ tail, Good env received' made x) (hfresh : ¬ Fresh c') :
    Contexts env received' made (c' :: tail) := by
  refine ⟨List.pairwise_cons.2 ⟨fun _ _ hf ↦ absurd hf hfresh, (List.pairwise_cons.1 h.line).2⟩, ?_,
    List.forall_mem_cons.2 ⟨hgood, htail⟩⟩
  rw [List.map_cons, hticket]
  exact h.nodup

/-! ### `OnPostProcessing` -/

/-- What `OnPostProcessing` makes of a fresh context. -/
def visit (env : Environment) (c : CContext) : CContext :=
  let it := c.OpenLocalWrite (env.opened c.ticket)
  if it.HasError then it
  else
    match env.refuses it.ticket with
    | none => it
    | some (ErrorCode, ErrorMsg) => it.refused ErrorCode ErrorMsg

theorem cannotOpen_ne_zero : CANNOT_OPEN_LOCAL_FILE_FOR_WRITING ≠ 0 := by decide

theorem sessionClosed_ne_zero : SESSION_CLOSED_BEFORE ≠ 0 := by decide

theorem openLocalWrite_ticket (c : CContext) (f : LocalFile) :
    (c.OpenLocalWrite f).ticket = c.ticket ∧ (c.OpenLocalWrite f).Flags = c.Flags := by
  rw [CContext.OpenLocalWrite]
  split
  · exact ⟨rfl, rfl⟩
  · dsimp only
    split <;> exact ⟨rfl, rfl⟩

theorem refused_same (c : CContext) (code : ℤ) (msg : String) :
    (c.refused code msg).ticket = c.ticket ∧ (c.refused code msg).Flags = c.Flags ∧
      (c.refused code msg).File = c.File ∧ (c.refused code msg).InitSize = c.InitSize ∧
      (c.refused code msg).ErrCode ≠ 0 := by
  rw [CContext.refused]
  split
  · exact ⟨rfl, rfl, rfl, rfl, sessionClosed_ne_zero⟩
  · next hne => exact ⟨rfl, rfl, rfl, rfl, hne⟩

/-- What `OpenLocalWrite` leaves: an error, or an open file. -/
theorem openLocalWrite_spec {c : CContext} (hc : Fresh c) (f : LocalFile) :
    ((c.OpenLocalWrite f).HasError ∧ (c.OpenLocalWrite f).ErrCode ≠ 0 ∧
        (c.OpenLocalWrite f).File = none) ∨
      (¬ (c.OpenLocalWrite f).HasError ∧
        (c.OpenLocalWrite f).File = some (.new c.Flags f.existing) ∧
        (FileStream.new c.Flags f.existing).Position ≤ (c.OpenLocalWrite f).InitSize.toNat) := by
  have hok : c.ErrCode = 0 ∧ c.ErrMsg = "" := by
    simpa [CContext.HasError] using hc.2
  rw [CContext.OpenLocalWrite]
  rcases f.error with - | message
  · refine .inr ?_
    dsimp only
    split
    · next happ => exact ⟨by simp [CContext.HasError, hok], rfl, by simp⟩
    · next happ =>
      refine ⟨by simp [CContext.HasError, hok], rfl, ?_⟩
      rw [FileStream.new, if_neg happ]
      split <;> exact Nat.zero_le _
  · exact .inl ⟨.inl cannotOpen_ne_zero, cannotOpen_ne_zero, hc.1⟩

/-- What `OnPostProcessing` leaves of a fresh context: one that is not fresh, with its own file. -/
theorem visit_spec {c : CContext} (hc : Fresh c) :
    (visit env c).ticket = c.ticket ∧ ¬ Fresh (visit env c) ∧
      ((visit env c).HasError → (visit env c).ErrCode ≠ 0) ∧
      (∀ f ∈ (visit env c).File, f = fileWith env (visit env c) [] ∧
        f.Position ≤ (visit env c).InitSize.toNat) := by
  obtain ⟨hticket, hflags⟩ := openLocalWrite_ticket c (env.opened c.ticket)
  rw [visit]
  obtain ⟨herr, hcode, hfile⟩ | ⟨hok, hfile, hpos⟩ := openLocalWrite_spec hc (env.opened c.ticket)
  · rw [if_pos herr]
    refine ⟨hticket, fun hf ↦ hf.2 herr, fun _ ↦ hcode, fun f hf ↦ ?_⟩
    rw [hfile] at hf
    exact nomatch hf
  · rw [if_neg hok]
    have hnew : ∀ x : CContext, x.ticket = c.ticket → x.Flags = c.Flags →
        FileStream.new c.Flags (env.opened c.ticket).existing = fileWith env x [] :=
      fun x ht hf ↦ by rw [fileWith, ht, hf, List.foldl_nil]
    split
    · refine ⟨hticket, fun hf ↦ ?_, fun herr ↦ absurd herr hok, fun f hf ↦ ?_⟩
      · rw [Fresh, hfile] at hf
        exact nomatch hf.1
      · rw [hfile] at hf
        obtain rfl := Option.some.inj hf
        exact ⟨hnew _ hticket hflags, hpos⟩
    · next code msg _ =>
      obtain ⟨ht, hfl, hfi, hi, hcode⟩ :=
        refused_same (c.OpenLocalWrite (env.opened c.ticket)) code msg
      refine ⟨ht.trans hticket, fun hf ↦ hf.2 (.inl hcode), fun _ ↦ hcode, fun f hf ↦ ?_⟩
      rw [hfi, hfile] at hf
      obtain rfl := Option.some.inj hf
      exact ⟨hnew _ (ht.trans hticket) (hfl.trans hflags), hi ▸ hpos⟩

/-- The contexts after some of them were visited, from the first fresh one on, and the requests that
were sent for them. -/
structure Visited (env : Environment) (l r : List CContext) (new : List ℕ) : Prop where
  tickets : r.map CContext.ticket = l.map CContext.ticket
  line : r.Pairwise fun c c' ↦ Fresh c → Fresh c'
  sent_eq : sent r = sent l ++ new
  mem : ∀ c ∈ r, c ∈ l ∨ ∃ c₀ ∈ l, Fresh c₀ ∧ c = visit env c₀

variable {l r rest : List CContext} {new : List ℕ} {it : CContext}

theorem Visited.refl (h : l.Pairwise fun c c' ↦ Fresh c → Fresh c') : Visited env l l [] :=
  ⟨rfl, h, (List.append_nil _).symm, fun _ hc ↦ .inl hc⟩

theorem Visited.mem_cons (h : Visited env rest r new) {c : CContext} (hc : c ∈ r) :
    c ∈ it :: rest ∨ ∃ c₀ ∈ it :: rest, Fresh c₀ ∧ c = visit env c₀ := by
  rcases h.mem c hc with hc | ⟨c₀, hc₀, hfresh, rfl⟩
  · exact .inl (List.mem_cons_of_mem _ hc)
  · exact .inr ⟨c₀, List.mem_cons_of_mem _ hc₀, hfresh, rfl⟩

/-- A context that is passed over. -/
theorem Visited.pass (h : Visited env rest r new) (hnot : ¬ Fresh it) :
    Visited env (it :: rest) (it :: r) new where
  tickets := by rw [List.map_cons, List.map_cons, h.tickets]
  line := List.pairwise_cons.2 ⟨fun _ _ hf ↦ absurd hf hnot, h.line⟩
  sent_eq := by
    by_cases hs : Sent it
    · rw [sent_cons_of_sent hs, sent_cons_of_sent hs, h.sent_eq]
      rfl
    · rw [sent_cons_of_not hs, sent_cons_of_not hs, h.sent_eq]
  mem c hc := by
    rcases List.mem_cons.1 hc with rfl | hc
    · exact .inl List.mem_cons_self
    · exact h.mem_cons hc

/-- A fresh context that is visited. -/
theorem Visited.visit (h : Visited env rest r new) (hfresh : Fresh it)
    (hrest : ∀ c ∈ rest, Fresh c) :
    Visited env (it :: rest) (visit env it :: r) (sent [StreamingFile.visit env it] ++ new) where
  tickets := by rw [List.map_cons, List.map_cons, h.tickets, (visit_spec hfresh).1]
  line := List.pairwise_cons.2 ⟨fun _ _ hf ↦ absurd hf (visit_spec hfresh).2.1, h.line⟩
  sent_eq := by
    have hnone : sent (it :: rest) = [] := sent_of_fresh (List.forall_mem_cons.2 ⟨hfresh, hrest⟩)
    have hnew : sent r = new := by rw [h.sent_eq, sent_of_fresh hrest, List.nil_append]
    rw [hnone, List.nil_append, ← hnew, sent, sent, sent, ← List.map_append, ← List.filter_append]
    rfl
  mem c hc := by
    rcases List.mem_cons.1 hc with rfl | hc
    · exact .inr ⟨it, List.mem_cons_self, hfresh, rfl⟩
    · exact h.mem_cons hc

/-- **The loop of `OnPostProcessing`.** -/
theorem openFiles_visited (m_MaxDownloading d : ℕ)
    (hline : l.Pairwise fun c c' ↦ Fresh c → Fresh c') :
    Visited env l (openFiles env m_MaxDownloading d l).1 (openFiles env m_MaxDownloading d l).2 := by
  induction l generalizing d with
  | nil => exact .refl .nil
  | cons it rest ih =>
    obtain ⟨hit, hrest⟩ := List.pairwise_cons.1 hline
    rw [openFiles]
    split
    · exact .refl hline
    · split
      · next hfile =>
        refine (ih (d + 1) hrest).pass fun hf ↦ ?_
        rw [hf.1] at hfile
        exact nomatch hfile
      · next hfile =>
        split
        · next herr => exact (ih d hrest).pass fun hf ↦ hf.2 herr
        · next herr =>
          -- the first fresh context
          have hfresh : Fresh it := ⟨by simpa using hfile, herr⟩
          have hall : ∀ c ∈ rest, Fresh c := fun c hc ↦ hit c hc hfresh
          dsimp only
          split
          · next hopen =>
            have hvisit := (ih d hrest).visit hfresh hall
            have heq : visit env it = it.OpenLocalWrite (env.opened it.ticket) := if_pos hopen
            have hnone : sent [visit env it] = [] := by
              rw [heq]
              exact sent_cons_of_not fun hs ↦ hs.2 hopen
            rwa [hnone, List.nil_append, heq] at hvisit
          · next hopen =>
            have hvisit := (ih (d + 1) hrest).visit hfresh hall
            have hticket := (openLocalWrite_ticket it (env.opened it.ticket)).1
            split
            · next href =>
              have heq : visit env it = it.OpenLocalWrite (env.opened it.ticket) := by
                rw [StreamingFile.visit, if_neg hopen, href]
              have hsent : sent [visit env it] =
                  [(it.OpenLocalWrite (env.opened it.ticket)).ticket] := by
                rw [heq]
                refine sent_cons_of_sent ⟨?_, hopen⟩
                obtain ⟨herr', -⟩ | ⟨-, hopened, -⟩ := openLocalWrite_spec hfresh
                  (env.opened it.ticket)
                · exact absurd herr' hopen
                · rw [hopened]
                  rfl
              rwa [hsent, heq] at hvisit
            · next code msg href =>
              have heq : visit env it =
                  (it.OpenLocalWrite (env.opened it.ticket)).refused code msg := by
                rw [StreamingFile.visit, if_neg hopen, href]
              have hnone : sent [visit env it] = [] := by
                rw [heq]
                exact sent_cons_of_not fun hs ↦ hs.2
                  (.inl (refused_same (it.OpenLocalWrite (env.opened it.ticket)) code msg).2.2.2.2)
              rwa [hnone, List.nil_append, heq] at hvisit

theorem Good.visit {received : List (ℕ × List UInt8)} {made : ℕ} {c : CContext}
    (h : Good env received made c) (hc : Fresh c) : Good env received made (visit env c) := by
  obtain ⟨hticket, -, herr, hfile⟩ := @visit_spec env _ hc
  have hown := h.unsent hc.not_sent
  refine ⟨hticket ▸ h.lt, herr, fun _ ↦ hticket ▸ hown, fun f hf ↦ ?_, fun hsome ↦ ?_⟩
  · rw [hticket, hown]
    exact (hfile f hf).1
  · obtain ⟨f, hf⟩ := Option.isSome_iff_exists.1 hsome
    obtain ⟨heq, hpos⟩ := hfile f hf
    exact heq ▸ hpos

theorem Visited.contexts {received : List (ℕ × List UInt8)} {made : ℕ} (h : Visited env l r new)
    (hl : Contexts env received made l) : Contexts env received made r := by
  refine ⟨h.line, h.tickets ▸ hl.nodup, fun c hc ↦ ?_⟩
  rcases h.mem c hc with hc | ⟨c₀, hc₀, hfresh, rfl⟩
  · exact hl.good c hc
  · exact (hl.good c₀ hc₀).visit hfresh

/-- The requests that are sent have received nothing. -/
theorem Visited.own_new {received : List (ℕ × List UInt8)} {made : ℕ} (h : Visited env l r new)
    (hl : Contexts env received made l) : ∀ k ∈ new, own k received = [] := by
  intro k hk
  have hmem : k ∈ sent r := h.sent_eq ▸ List.mem_append_right _ hk
  obtain ⟨c, hc, rfl⟩ := List.mem_map.1 hmem
  obtain ⟨hcr, hsent⟩ := List.mem_filter.1 hc
  rcases h.mem c hcr with hcl | ⟨c₀, hc₀, hfresh, rfl⟩
  · -- a request that had been sent before is not among them
    have hold : c.ticket ∈ sent l := List.mem_map_of_mem (List.mem_filter.2 ⟨hcl, hsent⟩)
    have hnodup : (sent r).Nodup :=
      (h.contexts hl).nodup.sublist (List.filter_sublist.map CContext.ticket)
    rw [h.sent_eq, List.nodup_append] at hnodup
    exact absurd rfl (hnodup.2.2 _ hold _ hk)
  · rw [(visit_spec hfresh).1]
    exact (hl.good c₀ hc₀).unsent hfresh.not_sent

/-- The loop that removes contexts takes those with errors from the front. -/
theorem dropFailed_spec (l : List CContext) :
    l = (dropFailed l).1 ++ (dropFailed l).2 ∧ (∀ c ∈ (dropFailed l).1, c.HasError) ∧
      ∀ c ∈ (dropFailed l).2.head?, ¬ c.HasError := by
  induction l with
  | nil => exact ⟨rfl, fun _ hc ↦ absurd hc List.not_mem_nil, fun _ hc ↦ nomatch hc⟩
  | cons it rest ih =>
    obtain ⟨heq, herr, hfront⟩ := ih
    rw [dropFailed]
    split
    · next hit => exact ⟨congrArg _ heq, List.forall_mem_cons.2 ⟨hit, herr⟩, hfront⟩
    · next hit =>
      refine ⟨rfl, fun _ hc ↦ absurd hc List.not_mem_nil, fun c hc ↦ ?_⟩
      obtain rfl := Option.some.inj hc
      exact hit

theorem sent_dropFailed (l : List CContext) : sent (dropFailed l).2 = sent l := by
  obtain ⟨heq, herr, -⟩ := dropFailed_spec l
  have hnone : sent (dropFailed l).1 = [] := by
    rw [sent, List.filter_eq_nil_iff.2, List.map_nil]
    exact fun c hc hs ↦ (of_decide_eq_true hs : Sent c).2 (herr c hc)
  have hsplit : sent l = sent (dropFailed l).1 ++ sent (dropFailed l).2 := by
    rw [sent, sent, sent, ← List.map_append, ← List.filter_append, ← heq]
  rw [hsplit, hnone, List.nil_append]

/-! ### Frames on the wire -/

/-- The frames of an answer, with the request. -/
def tagged (k : ℕ) (frames : List Frame) : List (ℕ × Frame) := frames.map fun f ↦ (k, f)

/-- The frames of the answers to several requests. -/
def answers (env : Environment) (requests : List ℕ) : List (ℕ × Frame) :=
  requests.flatMap fun k ↦ tagged k (env.answer k).frames

/-- **Whose the frames on the wire are.** -/
inductive Wired (env : Environment) (l : List CContext) (received : List (ℕ × List UInt8))
    (made : ℕ) (wire : List (ℕ × Frame)) : Prop
  /-- No answer has begun. -/
  | resting (hwire : wire = answers env (sent l)) (hown : ∀ r ∈ sent l, own r received = [])
  /-- The answer to the first request has begun. -/
  | live (k : ℕ) (rest : List ℕ) (past cur : List Frame) (hsent : sent l = k :: rest)
      (hframes : (env.answer k).frames = past ++ cur) (hcur : cur ≠ [])
      (hwire : wire = tagged k cur ++ answers env rest) (hpast : own k received = payloadsOf past)
      (hown : ∀ r ∈ rest, own r received = [])
  /-- An answer has begun and its context was removed. -/
  | dead (k : ℕ) (cur : List Frame) (hk : k ∉ l.map CContext.ticket) (hlt : k < made)
      (hcur : ∀ f ∈ cur, ¬ f.isStart) (hwire : wire = tagged k cur ++ answers env (sent l))
      (hown : ∀ r ∈ sent l, own r received = [])

/-- Whose the next frame is. -/
theorem Wired.next {received : List (ℕ × List UInt8)} {made k : ℕ} {f : Frame}
    {wire : List (ℕ × Frame)} (h : Wired env l received made ((k, f) :: wire)) :
    (∃ rest past cur, sent l = k :: rest ∧ (env.answer k).frames = past ++ f :: cur ∧
        wire = tagged k cur ++ answers env rest ∧ own k received = payloadsOf past ∧
        ∀ r ∈ rest, own r received = []) ∨
      ∃ cur, k ∉ l.map CContext.ticket ∧ k < made ∧ ¬ f.isStart ∧ (∀ f ∈ cur, ¬ f.isStart) ∧
        wire = tagged k cur ++ answers env (sent l) ∧ ∀ r ∈ sent l, own r received = [] := by
  -- the answer to the first request begins with the frame
  have hfirst : (k, f) :: wire = answers env (sent l) → (∀ r ∈ sent l, own r received = []) →
      ∃ rest past cur, sent l = k :: rest ∧ (env.answer k).frames = past ++ f :: cur ∧
        wire = tagged k cur ++ answers env rest ∧ own k received = payloadsOf past ∧
        ∀ r ∈ rest, own r received = [] := by
    intro hwire hown
    rcases hl : sent l with _ | ⟨k', rest⟩
    · rw [hl] at hwire
      exact nomatch hwire
    · rw [hl] at hwire hown
      rcases hframes : (env.answer k').frames with _ | ⟨f', cur⟩
      · exact absurd hframes (frames_ne_nil _)
      · rw [answers, List.flatMap_cons, hframes] at hwire
        obtain ⟨hhead, htail⟩ := List.cons.inj hwire
        obtain ⟨rfl, rfl⟩ := Prod.mk.inj hhead
        exact ⟨rest, [], cur, rfl, hframes, htail, hown _ List.mem_cons_self,
          fun r hr ↦ hown r (List.mem_cons_of_mem _ hr)⟩
  cases h with
  | resting hwire hown => exact .inl (hfirst hwire hown)
  | live k' rest past cur hsent hframes hcur hwire hpast hown =>
    rcases cur with _ | ⟨f', cur⟩
    · exact absurd rfl hcur
    · obtain ⟨hhead, htail⟩ := List.cons.inj hwire
      obtain ⟨rfl, rfl⟩ := Prod.mk.inj hhead
      exact .inl ⟨rest, past, cur, hsent, hframes, htail, hpast, hown⟩
  | dead k' cur hk hlt hcur hwire hown =>
    rcases cur with _ | ⟨f', cur⟩
    · exact .inl (hfirst hwire hown)
    · obtain ⟨hhead, htail⟩ := List.cons.inj hwire
      obtain ⟨rfl, rfl⟩ := Prod.mk.inj hhead
      obtain ⟨hf, hcur⟩ := List.forall_mem_cons.1 hcur
      exact .inr ⟨cur, hk, hlt, hf, hcur, htail, hown⟩

/-- More requests are sent, and contexts that have not been answered are removed. -/
theorem Wired.extend {received : List (ℕ × List UInt8)} {made : ℕ} {wire : List (ℕ × Frame)}
    {l' : List CContext} {new : List ℕ} (h : Wired env l received made wire)
    (hsent : sent l' = sent l ++ new) (hnew : ∀ k ∈ new, own k received = [])
    (hsub : l'.map CContext.ticket ⊆ l.map CContext.ticket) :
    Wired env l' received made (wire ++ answers env new) := by
  have hanswers : ∀ requests, answers env requests ++ answers env new =
      answers env (requests ++ new) := fun requests ↦ List.flatMap_append.symm
  have hall : ∀ requests : List ℕ, (∀ r ∈ requests, own r received = []) →
      ∀ r ∈ requests ++ new, own r received = [] := fun requests h r hr ↦
    (List.mem_append.1 hr).elim (h r) (hnew r)
  cases h with
  | resting hwire hown =>
    exact .resting (by rw [hwire, hanswers, hsent]) (hsent ▸ hall _ hown)
  | live k rest past cur hs hframes hcur hwire hpast hown =>
    refine .live k (rest ++ new) past cur ?_ hframes hcur ?_ hpast (hall _ hown)
    · rw [hsent, hs]
      rfl
    · rw [hwire, List.append_assoc, hanswers]
  | dead k cur hk hlt hcur hwire hown =>
    refine .dead k cur (fun hmem ↦ hk (hsub hmem)) hlt hcur ?_ (hsent ▸ hall _ hown)
    rw [hwire, List.append_assoc, hanswers, hsent]

/-- A fresh context is added. -/
theorem Wired.more {received : List (ℕ × List UInt8)} {made : ℕ} {wire : List (ℕ × Frame)}
    {c : CContext} (h : Wired env l received made wire) (hsent : sent (l ++ [c]) = sent l)
    (hc : c.ticket = made) : Wired env (l ++ [c]) received (made + 1) wire := by
  cases h with
  | resting hwire hown => exact .resting (hsent ▸ hwire) (hsent ▸ hown)
  | live k rest past cur hs hframes hcur hwire hpast hown =>
    exact .live k rest past cur (hsent ▸ hs) hframes hcur hwire hpast hown
  | dead k cur hk hlt hcur hwire hown =>
    refine .dead k cur ?_ (Nat.lt_succ_of_lt hlt) hcur (hsent ▸ hwire) (hsent ▸ hown)
    rw [List.map_append, List.mem_append]
    rintro (hmem | hmem)
    · exact hk hmem
    · have heq : k = c.ticket := List.mem_singleton.1 hmem
      omega

/-! ### The invariant -/

/-- What the callers were told, and what became of the files. -/
structure Told (env : Environment) (s : CStreamingFile) : Prop where
  closedFiles : ∀ p ∈ s.closed, ∀ f ∈ p.1.File,
    ∃ payloads, payloads <+: (env.answer p.1.ticket).payloads ∧ f = fileWith env p.1 payloads
  complete : ∀ c, .Download c ∈ s.notices → c.ErrCode = 0 →
    c.File = some (fileWith env c (env.answer c.ticket).payloads)
  noThrow : s.thrown = false

/-- What holds before `OnPostProcessing` runs. -/
structure Ready (env : Environment) (s : CStreamingFile) : Prop where
  contexts : Contexts env s.received s.made s.m_vContext
  wired : Wired env s.m_vContext s.received s.made s.wire
  received_lt : ∀ p ∈ s.received, p.1 < s.made
  told : Told env s

/-- **The invariant.** -/
structure Sound (env : Environment) (s : CStreamingFile) : Prop extends Ready env s where
  front : ∀ c ∈ s.m_vContext.head?, ¬ c.HasError

theorem mem_notify {c c' : CContext} (h : Notice.Download c ∈ notify c') : c = c' := by
  rw [notify] at h
  split at h
  · exact Notice.Download.inj (List.mem_singleton.1 h)
  · exact absurd h List.not_mem_nil

/-- **`OnPostProcessing`** opens files, sends requests and removes contexts with errors. -/
theorem postProcessing_sound (h : Ready env s) : Sound env (s.OnPostProcessing env) := by
  have hvisited := @openFiles_visited env _ s.m_MaxDownloading 0 h.contexts.line
  have hcontexts := hvisited.contexts h.contexts
  obtain ⟨hsplit, herr, hfront⟩ :=
    dropFailed_spec (openFiles env s.m_MaxDownloading 0 s.m_vContext).1
  have hdropped : ∀ c ∈ (dropFailed (openFiles env s.m_MaxDownloading 0 s.m_vContext).1).1,
      c ∈ (openFiles env s.m_MaxDownloading 0 s.m_vContext).1 := fun c hc ↦ by
    rw [hsplit]
    exact List.mem_append_left _ hc
  have hsub : (dropFailed (openFiles env s.m_MaxDownloading 0 s.m_vContext).1).2.Sublist
      (openFiles env s.m_MaxDownloading 0 s.m_vContext).1 := by
    conv_rhs => rw [hsplit]
    exact List.sublist_append_right _ _
  refine ⟨⟨hcontexts.of_sublist hsub, ?_, h.received_lt, ⟨?_, ?_, h.told.noThrow⟩⟩, hfront⟩
  · refine h.wired.extend ((sent_dropFailed _).trans hvisited.sent_eq)
      (hvisited.own_new h.contexts) ?_
    rw [← hvisited.tickets]
    exact (hsub.map _).subset
  · intro p hp f hf
    rcases List.mem_append.1 hp with hp | hp
    · exact h.told.closedFiles p hp f hf
    · obtain ⟨c, hc, rfl⟩ := List.mem_map.1 hp
      -- a request that was not sent has no payloads
      have hgood := hcontexts.good c (hdropped c hc)
      have hown := hgood.unsent fun hs ↦ hs.2 (herr c hc)
      refine ⟨[], List.nil_prefix, ?_⟩
      rw [hgood.file f hf, hown]
  · intro c hc hzero
    rcases List.mem_append.1 hc with hc | hc
    · exact h.told.complete c hc hzero
    · obtain ⟨c', hc', hmem⟩ := List.mem_flatMap.1 hc
      obtain rfl := mem_notify hmem
      exact absurd hzero ((hcontexts.good c' (hdropped c' hc')).errors (herr c' hc'))

/-- The front context is the one whose answer has begun. -/
theorem Sound.front_eq (h : Sound env s) {k : ℕ} {rest : List ℕ}
    (hsent : sent s.m_vContext = k :: rest) :
    ∃ c tail f, s.m_vContext = c :: tail ∧ c.ticket = k ∧ c.File = some f ∧ ¬ c.HasError ∧
      sent tail = rest := by
  have hfront := h.front
  have hline := h.contexts.line
  rcases hq : s.m_vContext with _ | ⟨c, tail⟩
  · rw [hq] at hsent
    exact nomatch hsent
  · rw [hq] at hsent hfront hline
    have herr : ¬ c.HasError := hfront c rfl
    rcases hfile : c.File with - | f
    · -- behind a fresh context no request was sent
      have hfresh : Fresh c := ⟨hfile, herr⟩
      have hall : ∀ c' ∈ c :: tail, Fresh c' := List.forall_mem_cons.2
        ⟨hfresh, fun c' hc' ↦ (List.pairwise_cons.1 hline).1 c' hc' hfresh⟩
      rw [sent_of_fresh hall] at hsent
      exact nomatch hsent
    · have hs : Sent c := ⟨by rw [hfile]; rfl, herr⟩
      rw [sent_cons_of_sent hs] at hsent
      obtain ⟨hk, hrest⟩ := List.cons.inj hsent
      exact ⟨c, tail, f, rfl, hk, hfile, herr, hrest⟩

/-! ### One step -/

theorem download_sound (h : Sound env s) (localFile remoteFile : String) (dl transferring : Bool)
    (flags : UInt32) : Sound env (s.download localFile remoteFile dl transferring flags) := by
  rw [CStreamingFile.download]
  split
  · exact h
  · have hfresh : Fresh (newContext s.made localFile remoteFile dl transferring flags) :=
      ⟨rfl, fun herr ↦ herr.elim (fun h ↦ h rfl) fun h ↦ h rfl⟩
    have hown : own s.made s.received = [] := own_eq_nil h.received_lt le_rfl
    have hsent : sent (s.m_vContext ++
        [newContext s.made localFile remoteFile dl transferring flags]) = sent s.m_vContext := by
      rw [sent, List.filter_append, List.map_append]
      exact List.append_nil _
    have hgood : Good env s.received (s.made + 1)
        (newContext s.made localFile remoteFile dl transferring flags) :=
      ⟨Nat.lt_succ_self _, fun herr ↦ absurd herr hfresh.2, fun _ ↦ hown,
        fun f hf ↦ (nomatch hf), fun hsome ↦ (nomatch hsome)⟩
    refine ⟨⟨⟨?_, ?_, ?_⟩, h.wired.more hsent rfl, fun p hp ↦ Nat.lt_succ_of_lt (h.received_lt p hp),
      ⟨h.told.closedFiles, h.told.complete, h.told.noThrow⟩⟩, ?_⟩
    · refine List.pairwise_append.2 ⟨h.contexts.line, List.pairwise_singleton _ _, ?_⟩
      rintro c - c' hc' -
      rwa [List.mem_singleton.1 hc']
    · rw [List.map_append, List.nodup_append]
      refine ⟨h.contexts.nodup, List.nodup_singleton _, ?_⟩
      rintro k hk k' hk' rfl
      obtain ⟨c, hc, rfl⟩ := List.mem_map.1 hk
      exact absurd (List.mem_singleton.1 hk') (Nat.ne_of_lt (h.contexts.good c hc).lt)
    · exact List.forall_mem_append.2 ⟨fun c hc ↦ (h.contexts.good c hc).mono,
        List.forall_mem_singleton.2 hgood⟩
    · intro c hc
      rcases hq : s.m_vContext with _ | ⟨c', tail⟩
      · rw [hq] at hc
        rw [← Option.some.inj hc]
        exact hfresh.2
      · refine h.front c ?_
        rw [hq] at hc ⊢
        exact hc

/-- The frame that starts an answer changes no file. -/
theorem onStart_sound {k : ℕ} {rest : List ℕ} {past cur : List Frame} (h : Sound env s)
    (fileSize : ℤ) (localFile remoteFile : String) (flags : UInt32) (initSize : ℤ)
    (hsent : sent s.m_vContext = k :: rest)
    (hframes : (env.answer k).frames =
      past ++ .startDownloading fileSize localFile remoteFile flags initSize :: cur)
    (hpast : own k s.received = payloadsOf past) (hown : ∀ r ∈ rest, own r s.received = []) :
    Sound env ({ s with wire := tagged k cur ++ answers env rest }.onStartDownloading env k fileSize
      localFile remoteFile flags initSize) := by
  obtain ⟨rfl, hcur⟩ := past_of_isStart hframes rfl
  obtain ⟨c, tail, f, hq, rfl, hfile, herr, htail⟩ := h.front_eq hsent
  have hgood := h.contexts.good c (hq ▸ List.mem_cons_self)
  have hf : f = fileWith env c [] := by
    rw [hgood.file f hfile, hpast]
    rfl
  have hpos : ¬ (if 0 < c.InitSize then c.InitSize.toNat else 0) < f.Position := by
    have hle := hgood.initSize (by rw [hfile]; exact rfl)
    rw [← hf] at hle
    split <;> omega
  have hstate : ({ s with wire := tagged c.ticket cur ++ answers env rest }.onStartDownloading env
      c.ticket fileSize localFile remoteFile flags initSize) =
      { s with
        m_vContext := { c with FileSize := fileSize } :: tail
        wire := tagged c.ticket cur ++ answers env rest } := by
    simp only [onStartDownloading, hq, onStartFront, hfile, if_neg hpos]
  have hgood' : Good env s.received s.made { c with FileSize := fileSize } :=
    ⟨hgood.lt, hgood.errors, hgood.unsent, hgood.file, hgood.initSize⟩
  rw [hstate]
  have hcontexts : Contexts env s.received s.made (c :: tail) := hq ▸ h.contexts
  have hfresh : ¬ Fresh { c with FileSize := fileSize } := fun hf ↦ by
    rw [Fresh, hfile] at hf
    exact nomatch hf.1
  refine ⟨⟨hcontexts.replace_front rfl hgood' (List.forall_mem_cons.1 hcontexts.good).2 hfresh, ?_,
    h.received_lt, ⟨h.told.closedFiles, h.told.complete, h.told.noThrow⟩⟩, fun c' hc' ↦ ?_⟩
  · refine .live c.ticket rest [.startDownloading fileSize localFile remoteFile flags initSize] cur
      ?_ hframes hcur rfl hpast hown
    have hs : Sent { c with FileSize := fileSize } := ⟨by rw [hfile]; rfl, herr⟩
    rw [sent_cons_of_sent hs, htail]
  · rw [← Option.some.inj hc']
    exact herr

/-- A payload is written to the front file. -/
theorem onDownloading_sound {k : ℕ} {rest : List ℕ} {past cur : List Frame} (h : Sound env s)
    (failure : Option IOException) (buffer : List UInt8) (hsent : sent s.m_vContext = k :: rest)
    (hframes : (env.answer k).frames = past ++ .downloading buffer :: cur)
    (hpast : own k s.received = payloadsOf past) (hown : ∀ r ∈ rest, own r s.received = []) :
    Sound env ({ s with
      wire := tagged k cur ++ answers env rest
      received := s.received ++ [(k, buffer)] }.onDownloading env failure buffer) := by
  obtain ⟨hbegin, hcur⟩ := prefix_of_downloading hframes
  obtain ⟨c, tail, f, hq, rfl, hfile, herr, htail⟩ := h.front_eq hsent
  have hcontexts : Contexts env s.received s.made (c :: tail) := hq ▸ h.contexts
  have hgood := hcontexts.good c List.mem_cons_self
  have hf := hgood.file f hfile
  have hgoods : ∀ x ∈ tail, Good env (s.received ++ [(c.ticket, buffer)]) s.made x := fun x hx ↦
    (hcontexts.good x (List.mem_cons_of_mem _ hx)).receive (hcontexts.ne_of_mem_tail x hx) buffer
  have hlt : ∀ p ∈ s.received ++ [(c.ticket, buffer)], p.1 < s.made :=
    List.forall_mem_append.2 ⟨h.received_lt, List.forall_mem_singleton.2 hgood.lt⟩
  have hrest : ∀ r ∈ rest, own r (s.received ++ [(c.ticket, buffer)]) = [] := fun r hr ↦ by
    obtain ⟨x, hx, hxr⟩ := List.mem_map.1 (sent_subset (htail ▸ hr))
    rw [own_concat_of_ne (hxr ▸ hcontexts.ne_of_mem_tail x hx)]
    exact hown r hr
  rcases failure with - | err
  · have hstate : ({ s with
        wire := tagged c.ticket cur ++ answers env rest
        received := s.received ++ [(c.ticket, buffer)] }.onDownloading env none buffer) =
        { s with
          m_vContext := { c with File := some (f.Write buffer) } :: tail
          wire := tagged c.ticket cur ++ answers env rest
          received := s.received ++ [(c.ticket, buffer)]
          notices := s.notices ++ if c.Transferring then
            [.Transferring { c with File := some (f.Write buffer) } ((f.Write buffer).Position -
              if 0 < c.InitSize then c.InitSize else 0)] else [] } := by
      simp only [onDownloading, hq, hfile]
      exact if_neg herr
    have hself := own_concat_self c.ticket buffer s.received
    have hgood' : Good env (s.received ++ [(c.ticket, buffer)]) s.made
        { c with File := some (f.Write buffer) } := by
      refine ⟨hgood.lt, hgood.errors, fun hs ↦ absurd ⟨rfl, herr⟩ hs, fun f' hf' ↦ ?_,
        fun _ ↦ hgood.initSize (by rw [hfile]; exact rfl)⟩
      rw [← Option.some.inj hf', hself, hf]
      exact (fileWith_concat c _ buffer).symm
    rw [hstate]
    refine ⟨⟨hcontexts.replace_front rfl hgood' hgoods (fun hfresh ↦ nomatch hfresh.1), ?_, hlt,
      ⟨h.told.closedFiles, fun c' hc' ↦ ?_, h.told.noThrow⟩⟩, fun c' hc' ↦ ?_⟩
    · refine .live c.ticket rest (past ++ [.downloading buffer]) cur ?_ ?_ hcur rfl ?_ hrest
      · have hs : Sent { c with File := some (f.Write buffer) } := ⟨rfl, herr⟩
        rw [sent_cons_of_sent hs, htail]
      · rw [hframes, List.append_assoc]
        rfl
      · rw [hself, hpast, payloadsOf_append]
        rfl
    · rcases List.mem_append.1 hc' with hc' | hc'
      · exact h.told.complete c' hc'
      · split at hc'
        · exact nomatch List.mem_singleton.1 hc'
        · exact absurd hc' List.not_mem_nil
    · rw [← Option.some.inj hc']
      exact herr
  · have hstate : ({ s with
        wire := tagged c.ticket cur ++ answers env rest
        received := s.received ++ [(c.ticket, buffer)] }.onDownloading env (some err) buffer) =
        ({ s with
          wire := tagged c.ticket cur ++ answers env rest
          received := s.received ++ [(c.ticket, buffer)] }.finish
            { c with ErrMsg := err.Message, ErrCode := err.HResult } tail).OnPostProcessing env := by
      simp only [onDownloading, hq, hfile]
    rw [hstate]
    refine postProcessing_sound ⟨⟨(List.pairwise_cons.1 hcontexts.line).2,
      (List.nodup_cons.1 hcontexts.nodup).2, hgoods⟩, ?_, hlt, ⟨fun p hp f' hf' ↦ ?_,
        fun c' hc' hzero ↦ ?_, h.told.noThrow⟩⟩
    · -- the rest of its answer is still to come
      refine .dead c.ticket cur (List.nodup_cons.1 hcontexts.nodup).1 hgood.lt
        (not_isStart_of_mem hframes) ?_ ?_
      · rw [← htail]
        rfl
      · show ∀ r ∈ sent tail, _
        rw [htail]
        exact hrest
    · rcases List.mem_append.1 hp with hp | hp
      · exact h.told.closedFiles p hp f' hf'
      · obtain rfl := List.mem_singleton.1 hp
        obtain rfl := Option.some.inj (hfile.symm.trans hf')
        refine ⟨payloadsOf past, hbegin, ?_⟩
        rw [hf, hpast]
        rfl
    · rcases List.mem_append.1 hc' with hc' | hc'
      · exact h.told.complete c' hc' hzero
      · obtain rfl := mem_notify hc'
        exact absurd hzero err.isError

/-- The last frame of an answer. -/
theorem onDownload_sound {k : ℕ} {rest : List ℕ} {past cur : List Frame} (h : Sound env s)
    (res : ℤ) (errMsg : String) (hsent : sent s.m_vContext = k :: rest)
    (hframes : (env.answer k).frames = past ++ .download res errMsg :: cur)
    (hpast : own k s.received = payloadsOf past) (hown : ∀ r ∈ rest, own r s.received = []) :
    Sound env ({ s with wire := tagged k cur ++ answers env rest }.onDownload env res errMsg) := by
  obtain ⟨hall, rfl⟩ := past_of_download hframes
  obtain ⟨c, tail, f, hq, rfl, hfile, herr, htail⟩ := h.front_eq hsent
  have hcontexts : Contexts env s.received s.made (c :: tail) := hq ▸ h.contexts
  have hf := (hcontexts.good c List.mem_cons_self).file f hfile
  have hcomplete : f = fileWith env c (env.answer c.ticket).payloads := by
    rw [hf, hpast, hall]
  have hstate : ({ s with wire := tagged c.ticket [] ++ answers env rest }.onDownload env res
      errMsg) = ({ s with wire := tagged c.ticket [] ++ answers env rest }.finish
        { c with ErrCode := res, ErrMsg := errMsg } tail).OnPostProcessing env := by
    simp only [onDownload, hq]
  rw [hstate]
  refine postProcessing_sound ⟨hcontexts.of_sublist (List.sublist_cons_self _ _), ?_, h.received_lt,
    ⟨fun p hp f' hf' ↦ ?_, fun c' hc' hzero ↦ ?_, h.told.noThrow⟩⟩
  · exact .resting (by rw [← htail]; exact rfl) (by rw [← htail] at hown; exact hown)
  · rcases List.mem_append.1 hp with hp | hp
    · exact h.told.closedFiles p hp f' hf'
    · obtain rfl := List.mem_singleton.1 hp
      obtain rfl := Option.some.inj (hfile.symm.trans hf')
      exact ⟨_, List.prefix_refl _, hcomplete⟩
  · rcases List.mem_append.1 hc' with hc' | hc'
    · exact h.told.complete c' hc' hzero
    · obtain rfl := mem_notify hc'
      exact hfile.trans (congrArg some hcomplete)

/-- The next frame. -/
theorem receive_sound {k : ℕ} {f : Frame} {wire : List (ℕ × Frame)} (h : Sound env s)
    (hwire : s.wire = (k, f) :: wire) (failure : Option IOException)
    (hC : k ∈ s.m_vContext.map CContext.ticket ∨ s.m_vContext = []) :
    Sound env ({ s with wire := wire }.OnResultReturned env failure k f) := by
  have hwired := h.wired
  rw [hwire] at hwired
  obtain ⟨rest, past, cur, hsent, hframes, rfl, hpast, hown⟩ |
    ⟨cur, hk, hlt, hstart, hcur, rfl, hown⟩ := hwired.next
  · cases f with
    | startDownloading fileSize localFile remoteFile flags initSize =>
      exact onStart_sound h fileSize localFile remoteFile flags initSize hsent hframes hpast hown
    | downloading buffer => exact onDownloading_sound h failure buffer hsent hframes hpast hown
    | download res errMsg => exact onDownload_sound h res errMsg hsent hframes hpast hown
  · -- the context was removed: nobody is there to take the frame
    have hempty : s.m_vContext = [] := hC.resolve_left hk
    cases f with
    | startDownloading fileSize localFile remoteFile flags initSize => exact absurd rfl hstart
    | downloading buffer =>
      have hstate : ({ s with
            wire := tagged k cur ++ answers env (sent s.m_vContext) }.OnResultReturned env failure k
              (.downloading buffer)) = { s with
            wire := tagged k cur ++ answers env (sent s.m_vContext)
            received := s.received ++ [(k, buffer)] } := by
        simp only [OnResultReturned, onDownloading, hempty]
      rw [hstate]
      refine ⟨⟨?_, .dead k cur hk hlt hcur rfl ?_, List.forall_mem_append.2 ⟨h.received_lt,
        List.forall_mem_singleton.2 hlt⟩, ⟨h.told.closedFiles, h.told.complete, h.told.noThrow⟩⟩,
        h.front⟩
      · show Contexts env _ s.made s.m_vContext
        rw [hempty]
        exact ⟨.nil, List.nodup_nil, fun _ hc ↦ absurd hc List.not_mem_nil⟩
      · show ∀ r ∈ sent s.m_vContext, _
        rw [hempty]
        exact fun _ hr ↦ absurd hr List.not_mem_nil
    | download res errMsg =>
      have hstate : ({ s with
            wire := tagged k cur ++ answers env (sent s.m_vContext) }.OnResultReturned env failure k
              (.download res errMsg)) = { s with
            wire := tagged k cur ++ answers env (sent s.m_vContext) }.OnPostProcessing env := by
        simp only [OnResultReturned, onDownload, hempty]
      rw [hstate]
      exact postProcessing_sound ⟨h.contexts, .dead k cur hk hlt hcur rfl hown, h.received_lt,
        ⟨h.told.closedFiles, h.told.complete, h.told.noThrow⟩⟩

theorem start_sound (env : Environment) : Sound env start where
  contexts := ⟨.nil, List.nodup_nil, fun _ hc ↦ absurd hc List.not_mem_nil⟩
  wired := .resting rfl fun _ hr ↦ absurd hr List.not_mem_nil
  received_lt _ hp := absurd hp List.not_mem_nil
  told := ⟨fun _ hp ↦ absurd hp List.not_mem_nil, fun _ hc ↦ absurd hc List.not_mem_nil, rfl⟩
  front _ hc := nomatch hc

/-- **One step.** -/
theorem step_sound (h : Sound env s) (a : Action) (hC : s.Orderly a)
    (hstep : step env s a = some t) : Sound env t := by
  rw [step, h.told.noThrow] at hstep
  cases a with
  | download localFile remoteFile dl transferring flags =>
    exact Option.some.inj hstep ▸ download_sound h localFile remoteFile dl transferring flags
  | setFilesStreamed value =>
    obtain rfl := Option.some.inj hstep
    exact ⟨⟨h.contexts, h.wired, h.received_lt,
      ⟨h.told.closedFiles, h.told.complete, h.told.noThrow⟩⟩, h.front⟩
  | postProcessing => exact Option.some.inj hstep ▸ postProcessing_sound h.toReady
  | receive failure =>
    rcases hwire : s.wire with _ | ⟨⟨k, f⟩, wire⟩
    · simp only [act, hwire] at hstep
      exact nomatch hstep
    · simp only [act, hwire] at hstep
      obtain rfl := Option.some.inj hstep
      exact receive_sound h hwire failure (hC (k, f) (by rw [hwire]; exact rfl))

theorem Sound.neverMixed (h : Sound env s) : s.NeverMixed env where
  files c hc := (h.contexts.good c hc).file
  closedFiles := h.told.closedFiles
  complete := h.told.complete
  noThrow := h.told.noThrow

/-- **The downloads never mix**, in every run whose steps are `Orderly`: whatever files are queued
and when, whatever the limit, the file system, the socket and the server. -/
theorem downloads_never_mix (env : Environment) (as : List Action)
    (hin : Within (step env) Orderly start as) (hrun : run (step env) start as = some s) :
    s.NeverMixed env := by
  have hsound : Sound env s := invariant_of_within (I := Sound env)
    (fun _ a _ hu hC hstep ↦ step_sound hu a hC hstep) as (start_sound env) hin hrun
  exact hsound.neverMixed

/-- Two files of two payloads each. -/
def twoFiles : Environment where
  opened _ := ⟨none, none⟩
  reopened _ := ⟨none, none⟩
  refuses _ := none
  answer k :=
    ⟨4, "local", "remote", 1, -1, if k = 0 then [[1, 2], [3, 4]] else [[5, 6], [7, 8]], 0, ""⟩

/-- The second file is queued and the limit raised while the first one comes; the last write to the
second file fails. -/
def someActions : List Action :=
  [.download "a" "A" true true 1, .postProcessing, .receive none, .receive none,
    .download "b" "B" true false 1, .setFilesStreamed 2, .postProcessing, .receive none,
    .receive none, .receive none, .receive none, .receive (some ⟨-5, "disk full", by decide⟩),
    .receive none]

theorem downloads_never_mix_someActions :
    ∃ s, run (step twoFiles) start someActions = some s ∧ s.NeverMixed twoFiles ∧ s.wire = [] ∧
      s.closed.map Prod.snd = [some [1, 2, 3, 4], none] :=
  ⟨_, rfl, downloads_never_mix twoFiles someActions (by decide) rfl, rfl, rfl⟩

/-- **A failed write mixes the downloads.** The first write to the first file fails; the second file
is opened at once, and gets the second payload of the first one. -/
theorem download_mixed :
    ¬ ∀ (env : Environment) (as : List Action) (s : CStreamingFile),
      run (step env) start as = some s → s.NeverMixed env := by
  intro hall
  have hmixed := hall twoFiles
    [.download "a" "A" true true 1, .download "b" "B" true true 1, .postProcessing, .receive none,
      .receive (some ⟨-5, "disk full", by decide⟩), .receive none] _ rfl
  exact absurd (hmixed.files _ List.mem_cons_self _ rfl) (by decide)

end SocketPro.CSharp.StreamingFile
