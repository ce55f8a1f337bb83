import SocketPro.File.LockSections
import SocketPro.File.UploadAccounts
import Mathlib.Algebra.Order.Group.Multiset
import Mathlib.Data.Multiset.Range

/-!
# How often a queued file ends

A method that has called a callback of the context at one end of the deque removes what it finds at
that end when it has the lock again. **In between the deque is open to everyone**: a file that is
queued behind the one that `Cancel` is at is removed in its place, and no callback of it is called
(`not_endsOnce`). Other ways to end twice or not at all are files without callbacks, two methods at
the same context, and `CleanCallbacks` with requests under way.

* `Sound` — every context is in the deque or removed, those that were told of their end are removed
  or about to be, and every method finds its context where it left it;
* `step_sound` — what a step keeps if it is `Calm`;
* `files_end_once` — **in calm runs every file ends exactly once**.
-/

namespace SocketPro.FileStream

open Machine

/-- What a method in the user's code will find at its end of the deque. -/
def Gap.Sees (v : List CContext) : Gap → Prop
  | Cancel id => (v.map CContext.id).getLast? = some id
  | OnPostProcessing id | failed id _ | idDownload (some id) => (v.map CContext.id).head? = some id
  | idUploadCompleted (some id) => ∃ c, v.head? = some c ∧ c.id = id ∧ c.IsOpen = true
  | idDownload none | idUploadCompleted none => True

/-- `Cancel` is in the user's code. -/
def Gap.inCancel : Gap → Bool
  | Cancel _ => true
  | _ => false

namespace Streaming

/-- The numbers of contexts. -/
def ids (v : List CContext) : Multiset ℕ := (v.map CContext.id : List ℕ)

/-- The contexts that methods in the user's code will remove. -/
def targets (gaps : List Gap) : Multiset ℕ := (gaps.filterMap Gap.target : List ℕ)

/-- What is known in every state of a calm run. -/
structure Sound (s : Streaming) : Prop where
  queued : ids s.m_vContext + (s.removed : Multiset ℕ) = Multiset.range s.pushed
  notified : (s.notified : Multiset ℕ) = s.removed + targets s.gaps
  pending : targets s.gaps ≤ ids s.m_vContext
  sees : ∀ g ∈ s.gaps, g.Sees s.m_vContext

variable {s : Streaming} {v w : List CContext} {c : CContext} {g : Gap} {id : ℕ}

theorem Sound.nodup (h : s.Sound) : (ids s.m_vContext).Nodup :=
  (Multiset.nodup_of_le (Multiset.le_add_right _ _) (h.queued ▸ Multiset.nodup_range s.pushed))

theorem mem_targets {gaps : List Gap} : id ∈ targets gaps ↔ ∃ g ∈ gaps, g.target = some id := by
  rw [targets, Multiset.mem_coe, List.mem_filterMap]

theorem targets_append (gaps : List Gap) (g : Gap) :
    targets (gaps ++ [g]) = targets gaps + targets [g] := by
  rw [targets, List.filterMap_append, ← Multiset.coe_add]
  rfl

theorem targets_singleton (h : g.target = some id) : targets [g] = {id} := by
  rw [targets, List.filterMap_cons_some h]
  rfl

theorem targets_none (h : g.target = none) : targets [g] = 0 := by
  rw [targets, List.filterMap_cons_none h]
  rfl

theorem targets_erase {gaps : List Gap} (hg : g ∈ gaps) (h : g.target = some id) :
    targets gaps = id ::ₘ targets (gaps.erase g) := by
  have hperm : (gaps.filterMap Gap.target).Perm ((g :: gaps.erase g).filterMap Gap.target) :=
    (List.perm_cons_erase hg).filterMap _
  rw [List.filterMap_cons_some h] at hperm
  exact Multiset.coe_eq_coe.2 hperm

theorem targets_erase_none {gaps : List Gap} (hg : g ∈ gaps) (h : g.target = none) :
    targets gaps = targets (gaps.erase g) := by
  have hperm : (gaps.filterMap Gap.target).Perm ((g :: gaps.erase g).filterMap Gap.target) :=
    (List.perm_cons_erase hg).filterMap _
  rw [List.filterMap_cons_none h] at hperm
  exact Multiset.coe_eq_coe.2 hperm

/-- **Each file ends exactly once**, as far as it has ended. -/
theorem Sound.endsOnce (h : s.Sound) : s.EndsOnce where
  removed_or_queued id hid := by
    have hcount : (ids s.m_vContext + (s.removed : Multiset ℕ)).count id = 1 := by
      rw [h.queued]
      exact Multiset.count_eq_one_of_mem (Multiset.nodup_range _) (Multiset.mem_range.2 hid)
    rw [Multiset.count_add, ids, Multiset.coe_count, Multiset.coe_count] at hcount
    omega
  notified_once id := by
    have hle : (s.notified : Multiset ℕ) ≤ Multiset.range s.pushed := by
      rw [h.notified, ← h.queued, add_comm (ids s.m_vContext)]
      exact add_le_add_right h.pending _
    rw [← Multiset.coe_count]
    exact Multiset.nodup_iff_count_le_one.1
      (Multiset.nodup_of_le hle (Multiset.nodup_range _)) id
  removed_notified id hid := by
    rw [← Multiset.mem_coe, h.notified]
    exact Multiset.mem_add.2 (.inl (Multiset.mem_coe.2 hid))
  notified_removed hnone id hid := by
    rw [← Multiset.mem_coe, h.notified, hnone] at hid
    exact Multiset.mem_coe.1 ((Multiset.mem_add.1 hid).resolve_right (Multiset.notMem_zero id))

/-! ### What a section of code does to the deque -/

/-- The same contexts, of which the first is still open if it was. -/
def Like (v w : List CContext) : Prop :=
  w.map CContext.id = v.map CContext.id ∧
    ∀ c, v.head? = some c → c.IsOpen = true → ∃ d, w.head? = some d ∧ d.id = c.id ∧ d.IsOpen = true

theorem Like.refl (v : List CContext) : Like v v := ⟨rfl, fun c hc hopen ↦ ⟨c, hc, rfl, hopen⟩⟩

theorem Like.front {d : CContext} (hid : d.id = c.id) (hopen : c.IsOpen = true → d.IsOpen = true) :
    Like (c :: v) (d :: v) := by
  refine ⟨by rw [List.map_cons, List.map_cons, hid], fun c' hc' hopen' ↦ ?_⟩
  obtain rfl := Option.some.inj hc'
  exact ⟨d, rfl, hid, hopen hopen'⟩

theorem sees_like (h : g.Sees v) (hlike : Like v w) : g.Sees w := by
  obtain ⟨hids, hhead⟩ := hlike
  cases g with
  | Cancel id | OnPostProcessing id | failed id =>
    rw [Gap.Sees] at h ⊢
    rw [hids, h]
  | idDownload id =>
    cases id with
    | none => trivial
    | some id =>
      rw [Gap.Sees] at h ⊢
      rw [hids, h]
  | idUploadCompleted id =>
    cases id with
    | none => trivial
    | some id =>
      obtain ⟨c, hc, rfl, hopen⟩ := h
      obtain ⟨d, hd, hid, hopen'⟩ := hhead c hc hopen
      exact ⟨d, hd, hid, hopen'⟩

theorem Sound.relabel (h : s.Sound) (hids : w.map CContext.id = s.m_vContext.map CContext.id)
    (hsees : ∀ g ∈ s.gaps, g.Sees w) (l : List Request) :
    ({ s with m_vContext := w, m_vCallback := l } : Streaming).Sound where
  queued := by
    rw [ids, hids]
    exact h.queued
  notified := h.notified
  pending := by
    rw [ids, hids]
    exact h.pending
  sees := hsees

theorem Sound.like (h : s.Sound) (hlike : Like s.m_vContext w) (l : List Request) :
    ({ s with m_vContext := w, m_vCallback := l } : Streaming).Sound :=
  h.relabel hlike.1 (fun g hg ↦ sees_like (h.sees g hg) hlike) l

/-- No method is in the user's code for the context. -/
def Free (gaps : List Gap) (id : ℕ) : Prop := ∀ g ∈ gaps, g.target ≠ some id

theorem Free.notMem {gaps : List Gap} (h : Free gaps id) : id ∉ targets gaps := fun hmem ↦ by
  obtain ⟨g, hg, htarget⟩ := mem_targets.1 hmem
  exact h g hg htarget

/-- **A callback is called** for a context that no other method is at. -/
theorem Sound.call (h : s.Sound) (hid : id ∈ ids s.m_vContext) (hfree : Free s.gaps id)
    (htarget : g.target = some id) (hsees : g.Sees s.m_vContext) :
    ({ s with notified := s.notified ++ [id], gaps := s.gaps ++ [g] } : Streaming).Sound where
  queued := h.queued
  notified := by
    rw [targets_append, targets_singleton htarget, ← Multiset.coe_add, h.notified, add_assoc]
    rfl
  pending := by
    rw [targets_append, targets_singleton htarget, add_comm, Multiset.singleton_add]
    exact (Multiset.cons_le_of_notMem hfree.notMem).2 ⟨hid, h.pending⟩
  sees g' hg' := by
    rcases List.mem_append.1 hg' with hg' | hg'
    · exact h.sees g' hg'
    · rwa [List.mem_singleton.1 hg']

/-- A method that has found nothing to call a callback of. -/
theorem Sound.wait (h : s.Sound) (htarget : g.target = none) (hsees : g.Sees s.m_vContext) :
    ({ s with gaps := s.gaps ++ [g] } : Streaming).Sound where
  queued := h.queued
  notified := by
    rw [targets_append, targets_none htarget, add_zero]
    exact h.notified
  pending := by
    rw [targets_append, targets_none htarget, add_zero]
    exact h.pending
  sees g' hg' := by
    rcases List.mem_append.1 hg' with hg' | hg'
    · exact h.sees g' hg'
    · rwa [List.mem_singleton.1 hg']

/-! ### Removing a context -/

/-- The other methods are at other contexts. -/
theorem Sound.free_erase (h : s.Sound) (hg : g ∈ s.gaps) (htarget : g.target = some id) :
    Free (s.gaps.erase g) id := by
  intro g' hg' htarget'
  have hnodup : (targets s.gaps).Nodup := Multiset.nodup_of_le h.pending h.nodup
  rw [targets_erase hg htarget] at hnodup
  exact (Multiset.nodup_cons.1 hnodup).1 (mem_targets.2 ⟨g', hg', htarget'⟩)

/-- What is in the deque without a context that is removed. -/
theorem Sound.remove (h : s.Sound) (hg : g ∈ s.gaps) (htarget : g.target = some id)
    (hids : ids s.m_vContext = id ::ₘ ids w) (hsees : ∀ g' ∈ s.gaps.erase g, g'.Sees w) :
    ({ s with
      m_vContext := w
      gaps := s.gaps.erase g
      removed := s.removed ++ [id] } : Streaming).Sound where
  queued := by
    have hqueued := h.queued
    rw [hids, Multiset.cons_add] at hqueued
    rw [← Multiset.coe_add, ← hqueued, ← add_assoc, ← Multiset.singleton_add, add_comm _ (_ + _)]
    rfl
  notified := by
    have hnotified := h.notified
    rw [targets_erase hg htarget] at hnotified
    rw [← Multiset.coe_add, hnotified, ← Multiset.singleton_add, add_assoc]
    rfl
  pending := by
    have hpending := h.pending
    rw [targets_erase hg htarget, hids] at hpending
    exact (Multiset.cons_le_cons_iff id).1 hpending
  sees := hsees

/-- **The front is removed** by the method that has called for it. -/
theorem Sound.popFront (h : s.Sound) (hg : g ∈ s.gaps) (htarget : g.target = some id)
    (hhead : (s.m_vContext.map CContext.id).head? = some id) :
    (popFront { s with gaps := s.gaps.erase g }).Sound := by
  have hfree := h.free_erase hg htarget
  rw [Streaming.popFront]
  cases hv : s.m_vContext with
  | nil =>
    rw [hv] at hhead
    cases hhead
  | cons c rest =>
    rw [hv] at hhead
    obtain rfl : c.id = id := Option.some.inj hhead
    refine h.remove hg htarget (by rw [hv]; rfl) fun g' hg' ↦ ?_
    have hsees := h.sees g' (List.mem_of_mem_erase hg')
    have hne := hfree g' hg'
    rw [hv] at hsees
    cases g' with
    | Cancel id =>
      cases rest with
      | nil => exact absurd hsees.symm hne
      | cons d rest => exact hsees
    | OnPostProcessing id | failed id => exact absurd hsees.symm hne
    | idDownload id =>
      cases id with
      | none => trivial
      | some id => exact absurd hsees.symm hne
    | idUploadCompleted id =>
      cases id with
      | none => trivial
      | some id =>
        obtain ⟨d, hd, rfl, -⟩ := hsees
        obtain rfl := Option.some.inj hd
        exact absurd rfl hne

/-- **The back is removed** by `Cancel`. -/
theorem Sound.popBack (h : s.Sound) (hg : Gap.Cancel id ∈ s.gaps) :
    (popBack { s with gaps := s.gaps.erase (.Cancel id) }).Sound := by
  have hfree := h.free_erase hg rfl
  have hlast : (s.m_vContext.map CContext.id).getLast? = some id := h.sees _ hg
  rw [Streaming.popBack]
  rcases List.eq_nil_or_concat s.m_vContext with hv | ⟨init, c, hv⟩
  · rw [hv] at hlast
    cases hlast
  rw [List.concat_eq_append] at hv
  rw [hv, List.map_append, List.map_singleton, List.getLast?_append, List.getLast?_singleton]
    at hlast
  obtain rfl : c.id = id := Option.some.inj hlast
  have hids : ids s.m_vContext = c.id ::ₘ ids init := by
    rw [hv, ids, List.map_append, ← Multiset.coe_add, add_comm]
    rfl
  have hsound := h.remove hg rfl hids fun g' hg' ↦ ?_
  · dsimp only
    rw [hv, List.dropLast_concat, List.getLast?_concat]
    exact hsound
  · have hsees := h.sees g' (List.mem_of_mem_erase hg')
    have hne := hfree g' hg'
    rw [hv] at hsees
    cases g' with
    | Cancel id =>
      rw [Gap.Sees, List.map_append, List.map_singleton, List.getLast?_append,
        List.getLast?_singleton] at hsees
      exact absurd hsees.symm hne
    | OnPostProcessing id | failed id =>
      cases init with
      | nil => exact absurd hsees.symm hne
      | cons d init => exact hsees
    | idDownload id =>
      cases id with
      | none => trivial
      | some id =>
        cases init with
        | nil => exact absurd hsees.symm hne
        | cons d init => exact hsees
    | idUploadCompleted id =>
      cases id with
      | none => trivial
      | some id =>
        cases init with
        | nil =>
          obtain ⟨d, hd, rfl, -⟩ := hsees
          obtain rfl := Option.some.inj hd
          exact absurd rfl hne
        | cons d init => exact hsees

/-! ### The conditions -/

/-- The loop of `Cancel` finds a file that is open, or one with a callback that no other method is
at. -/
def CalmBack (gaps : List Gap) (v : List CContext) : Prop :=
  ∀ c ∈ v.getLast?, c.IsOpen = true ∨ c.Discarded = true ∧ Free gaps c.id

/-- The second loop of `OnPostProcessing` finds a file without an error, or the like. -/
def CalmFront (gaps : List Gap) (v : List CContext) : Prop :=
  ∀ c ∈ v.head?, c.HasError = true → c.Download = true ∧ Free gaps c.id

theorem looped_none {gap : ℕ → Gap} :
    s.looped v ⟨w, [], none⟩ gap = { s with m_vContext := v } := by
  simp only [looped, Option.toList_none, List.map_nil, List.append_nil]

theorem looped_some {gap : ℕ → Gap} :
    s.looped v ⟨w, [], some id⟩ gap = { s with
      m_vContext := v, notified := s.notified ++ [id], gaps := s.gaps ++ [gap id] } := by
  simp only [looped, Option.toList_some, List.map_cons, List.map_nil, List.append_nil]

/-- **`Cancel`** -/
theorem Sound.Cancel (h : s.Sound) (hcalm : CalmBack s.gaps s.m_vContext) : s.Cancel.Sound := by
  rw [Streaming.Cancel]
  rcases List.eq_nil_or_concat s.m_vContext with hv | ⟨init, c, hv⟩
  · rw [hv, List.reverse_nil, cancelLoop, looped_none]
    exact h.like (by rw [hv]; exact .refl []) s.m_vCallback
  rw [List.concat_eq_append] at hv
  rw [CalmBack, hv, List.getLast?_concat] at hcalm
  have hreverse : s.m_vContext.reverse = c :: init.reverse := by
    rw [hv, List.reverse_append, List.reverse_singleton, List.singleton_append]
  have hback : (c :: init.reverse).reverse = s.m_vContext := by
    rw [← hreverse, List.reverse_reverse]
  rw [hreverse, cancelLoop]
  split_ifs with hopen hgiven
  · rw [looped_none, hback]
    exact h
  · obtain ⟨-, hfree⟩ := (hcalm c rfl).resolve_left hopen
    rw [looped_some, hback]
    refine h.call ?_ hfree rfl ?_
    · rw [hv, ids, List.map_append, ← Multiset.coe_add]
      exact Multiset.mem_add.2 (.inr (Multiset.mem_coe.2 List.mem_cons_self))
    · rw [Gap.Sees, hv, List.map_append, List.map_singleton, List.getLast?_concat]
  · exact absurd ((hcalm c rfl).resolve_left hopen).1 hgiven

/-- Methods at other contexts do not need the first one to be open. -/
theorem sees_closed {d : CContext} (h : g.Sees (c :: v)) (hne : g.target ≠ some c.id)
    (hid : d.id = c.id) : g.Sees (d :: v) := by
  have hids : (d :: v).map CContext.id = (c :: v).map CContext.id := by
    rw [List.map_cons, List.map_cons, hid]
  cases g with
  | Cancel id | OnPostProcessing id | failed id =>
    rw [Gap.Sees] at h ⊢
    rw [hids, h]
  | idDownload id =>
    cases id with
    | none => trivial
    | some id =>
      rw [Gap.Sees] at h ⊢
      rw [hids, h]
  | idUploadCompleted id =>
    cases id with
    | none => trivial
    | some id =>
      obtain ⟨c', hc', rfl, -⟩ := h
      obtain rfl := Option.some.inj hc'
      exact absurd rfl hne

/-- **The second loop of `OnPostProcessing`** -/
theorem Sound.popErrors (h : s.Sound) (hcalm : CalmFront s.gaps s.m_vContext) :
    s.popErrors.Sound := by
  rw [Streaming.popErrors]
  cases hv : s.m_vContext with
  | nil =>
    rw [popLoop, looped_none]
    exact h.like (by rw [hv]; exact .refl []) s.m_vCallback
  | cons c rest =>
    rw [CalmFront, hv] at hcalm
    rw [popLoop]
    split_ifs with herr hgiven
    · -- the file is closed before the callback
      obtain ⟨-, hfree⟩ := hcalm c rfl herr
      have hsees : ∀ g ∈ s.gaps, g.Sees ({ c with file := none } :: rest) := fun g hg ↦
        sees_closed (hv ▸ h.sees g hg) (hfree g hg) rfl
      have hclosed : ({ s with m_vContext := { c with file := none } :: rest } : Streaming).Sound :=
        h.relabel (by rw [hv]; rfl) hsees s.m_vCallback
      rw [looped_some]
      exact hclosed.call (Multiset.mem_coe.2 List.mem_cons_self) hfree rfl rfl
    · exact absurd (hcalm c rfl herr).1 hgiven
    · rw [looped_none, ← hv]
      exact h

theorem notSent_id (c : CContext) (ec : ℤ) (em : String) : (c.notSent ec em).id = c.id := by
  rw [CContext.notSent]
  split_ifs <;> rfl

theorem openFiles_ids (maxDownloading : ℕ) (env : ℕ → Opening) (d : ℕ) :
    (openFiles maxDownloading env d v).1.map CContext.id = v.map CContext.id := by
  induction v generalizing d with
  | nil => rfl
  | cons it v ih =>
    rw [openFiles]
    dsimp only
    split_ifs
    all_goals first
      | rfl
      | exact congrArg₂ List.cons rfl (ih _)
      | exact congrArg₂ List.cons (notSent_id _ _ _) (ih _)

/-- The first loop of `OnPostProcessing` closes nothing. -/
theorem openFiles_like (maxDownloading : ℕ) (env : ℕ → Opening) :
    Like v (openFiles maxDownloading env 0 v).1 := by
  refine ⟨openFiles_ids maxDownloading env 0, fun c hc hopen ↦ ?_⟩
  cases v with
  | nil => cases hc
  | cons it rest =>
    obtain rfl := Option.some.inj hc
    refine ⟨it, ?_, rfl, hopen⟩
    rw [openFiles, if_pos hopen]
    split_ifs <;> rfl

theorem Sound.OnPostProcessing (h : s.Sound) {maxDownloading : ℕ} {env : ℕ → Opening}
    (hcalm : CalmFront s.gaps (openFiles maxDownloading env 0 s.m_vContext).1) :
    (s.OnPostProcessing maxDownloading env).Sound :=
  Sound.popErrors (h.like (openFiles_like maxDownloading env) _) hcalm

/-! ### Replies -/

/-- A handler may call for the front. -/
def CalmCall (gaps : List Gap) (c : CContext) : Prop := c.Download = true ∧ Free gaps c.id

/-- The handler of a reply calls for the front only where it may. -/
def CalmReply (gaps : List Gap) (v : List CContext) (env : Sending) : Result → Prop
  | .idDownload _ _ => ∀ c ∈ v.head?, CalmCall gaps c
  | .idStartDownloading _ => v ≠ []
  | .idDownloading | .idUploadBackup => True
  | .idUpload res errMsg => ∀ c ∈ v.head?,
    (res ≠ 0 ∨ errMsg ≠ "" ∨ Fails env (sendFile env { c with QueueOk := env.startJob })) →
      CalmCall gaps c
  | .idUploading uploaded res errMsg => ∀ c ∈ v.head?,
    (res ≠ 0 ∨ errMsg ≠ "" ∨ 0 ≤ uploaded ∧ c.Sent = false ∧ Fails env (sendNext env c)) →
      CalmCall gaps c
  | .idUploadCompleted => ∀ c ∈ v.head?, c.IsOpen = true → CalmCall gaps c

theorem answered_eq (s : Streaming) (reqId : RequestId) :
    ∃ l, s.answered reqId = { s with m_vCallback := l } := by
  rw [Streaming.answered]
  split
  · split_ifs
    · exact ⟨_, rfl⟩
    · exact ⟨_, rfl⟩
  · exact ⟨_, rfl⟩

/-- A call for the front, which may have been changed. -/
theorem Sound.callFront (h : s.Sound) {d : CContext} {rest : List CContext}
    (hv : s.m_vContext = c :: rest) (hlike : Like (c :: rest) (d :: rest))
    (hcall : CalmCall s.gaps c) (l : List Request) (htarget : g.target = some c.id)
    (hsees : g.Sees (d :: rest)) :
    (({ s with m_vContext := d :: rest, m_vCallback := l } : Streaming).call
      c.Download c.id g).Sound := by
  have hsound := h.like (hv ▸ hlike) l
  rw [Streaming.call, hcall.1]
  refine hsound.call ?_ hcall.2 htarget hsees
  have hid : c.id ∈ (c :: rest).map CContext.id := List.mem_cons_self
  rw [← hlike.1] at hid
  exact Multiset.mem_coe.2 hid

/-- The context behind a transfer. -/
theorem like_result {d : CContext} {t : Transfer} {env : Sending} {rest : List CContext}
    (hlike : Like (c :: rest) (d :: rest)) (h : Keeps d t.context) :
    Like (c :: rest) (t.result env :: rest) := by
  have hresult : (t.result env).id = d.id ∧ (d.IsOpen = true → (t.result env).IsOpen = true) := by
    rw [Transfer.result]
    split_ifs
    · exact ⟨h.id, h.isOpen⟩
    · exact ⟨h.id, h.isOpen⟩
  have hd := Like.front (v := rest) hresult.1 hresult.2
  refine ⟨hd.1.trans hlike.1, fun c' hc' hopen ↦ ?_⟩
  obtain ⟨d', hd', hid, hopen'⟩ := hlike.2 c' hc' hopen
  obtain ⟨e, he, hid', hopen''⟩ := hd.2 d' hd' hopen'
  exact ⟨e, he, hid'.trans hid, hopen''⟩

/-- **A transfer** calls for its file if it fails. -/
theorem Sound.transfer (h : s.Sound) {d : CContext} {t : Transfer} {env : Sending}
    {rest : List CContext} (hv : s.m_vContext = c :: rest) (hd : Like (c :: rest) (d :: rest))
    (hgiven : d.Download = c.Download) (hkeeps : Keeps d t.context)
    (hcalm : Fails env t → CalmCall s.gaps c) (l : List Request) (abortJob : Bool) :
    (({ s with m_vCallback := l } : Streaming).transfer env abortJob t rest).Sound := by
  have hlike : Like (c :: rest) (t.result env :: rest) := like_result hd hkeeps
  rw [Streaming.transfer]
  dsimp only
  split_ifs with hfail
  · have hid : (t.result env).id = c.id := (List.cons.inj hlike.1).1
    have hresult : (t.result env).Download = c.Download := by
      rw [Transfer.result_of_failed hfail.1]
      exact hkeeps.download.trans hgiven
    rw [hid, hresult]
    exact h.callFront hv hlike (hcalm hfail) _ rfl (by rw [Gap.Sees, hlike.1]; rfl)
  · exact h.like (hv ▸ hlike) _

theorem Sound.onDownload (h : s.Sound) {res : ℤ} {errMsg : String}
    (hcalm : ∀ c ∈ s.m_vContext.head?, CalmCall s.gaps c) : (s.onDownload res errMsg).Sound := by
  rw [Streaming.onDownload]
  split
  · exact h.wait rfl trivial
  · next c rest hv =>
    have hlike : Like (c :: rest) ({ c with ErrorCode := res, ErrMsg := errMsg } :: rest) :=
      .front rfl fun hopen ↦ hopen
    have hcall := hcalm c (by rw [hv]; rfl)
    exact h.callFront (g := .idDownload (some c.id)) hv hlike hcall s.m_vCallback rfl rfl

theorem Sound.onUpload (h : s.Sound) {env : Sending} {res : ℤ} {errMsg : String}
    (hcalm : CalmReply s.gaps s.m_vContext env (.idUpload res errMsg)) :
    (s.onUpload env res errMsg).Sound := by
  rw [Streaming.onUpload]
  split
  · exact h
  · next c rest hv =>
    have hfront := hcalm c (by rw [hv]; rfl)
    dsimp only
    by_cases herr : res ≠ 0 ∨ errMsg ≠ ""
    · rw [if_pos herr]
      have hcall := h.callFront hv (.refl _) (hfront (herr.imp_right .inl)) s.m_vCallback
        (g := .failed c.id c.QueueOk) rfl rfl
      rw [← hv] at hcall
      exact hcall
    · rw [if_neg herr]
      have hlike : Like (c :: rest) ({ c with QueueOk := env.startJob } :: rest) :=
        .front rfl fun hopen ↦ hopen
      exact h.transfer hv hlike rfl (moves_sendFile env { c with QueueOk := env.startJob }).keeps
        (fun hfail ↦ hfront (.inr (.inr hfail))) _ _

theorem Sound.onUploading (h : s.Sound) {env : Sending} {uploaded res : ℤ} {errMsg : String}
    (hcalm : CalmReply s.gaps s.m_vContext env (.idUploading uploaded res errMsg)) :
    (s.onUploading env uploaded res errMsg).Sound := by
  rw [Streaming.onUploading]
  split
  · exact h
  · next c rest hv =>
    have hfront := hcalm c (by rw [hv]; rfl)
    have hlike : Like (c :: rest) ({ c with ErrorCode := res, ErrMsg := errMsg } :: rest) :=
      .front rfl fun hopen ↦ hopen
    dsimp only
    split_ifs with herr hreported hsent
    · have hcall := hfront ((CContext.hasError_iff.1 hreported).imp_right .inl)
      exact h.callFront hv hlike hcall s.m_vCallback rfl rfl
    · exact h.like (hv ▸ hlike) s.m_vCallback
    · exact h
    · have hpos : 0 ≤ uploaded := not_lt.1 fun hneg ↦ herr (.inl hneg)
      exact h.transfer hv (.refl _) rfl (moves_sendNext env c).keeps
        (fun hfail ↦ hfront (.inr (.inr ⟨hpos, Bool.eq_false_iff.2 hsent, hfail⟩))) s.m_vCallback false

theorem Sound.onUploadCompleted (h : s.Sound)
    (hcalm : ∀ c ∈ s.m_vContext.head?, c.IsOpen = true → CalmCall s.gaps c) :
    s.onUploadCompleted.Sound := by
  rw [Streaming.onUploadCompleted]
  split
  · exact h.wait rfl trivial
  · next c rest hv =>
    split_ifs with hopen
    · have hcall := h.callFront hv (.refl _) (hcalm c (by rw [hv]; rfl) hopen) s.m_vCallback
        (g := .idUploadCompleted (some c.id)) rfl ⟨c, rfl, rfl, hopen⟩
      rw [← hv] at hcall
      exact hcall
    · have hlike : Like s.m_vContext ({ c with Sent := false, QueueOk := false } :: rest) := by
        rw [hv]
        exact .front rfl fun hopen ↦ hopen
      exact (h.like hlike s.m_vCallback).wait rfl trivial

/-- **Replies** -/
theorem Sound.OnResultReturned (h : s.Sound) {env : Sending} {result : Result}
    (hcalm : CalmReply s.gaps s.m_vContext env result) :
    (s.OnResultReturned env result).Sound := by
  have hanswered (reqId : RequestId) : ∃ l, s.answered reqId = { s with m_vCallback := l } ∧
      ({ s with m_vCallback := l } : Streaming).Sound := by
    obtain ⟨l, hl⟩ := answered_eq s reqId
    exact ⟨l, hl, h.like (.refl _) l⟩
  rw [Streaming.OnResultReturned.eq_def]
  cases result with
  | idDownload res errMsg =>
    obtain ⟨l, hl, hsound⟩ := hanswered .idDownload
    dsimp only
    rw [hl]
    exact hsound.onDownload hcalm
  | idStartDownloading file =>
    dsimp only
    rw [Streaming.onStartDownloading]
    split
    · next hv => exact absurd hv hcalm
    · exact h
  | idDownloading => exact h
  | idUploadBackup =>
    obtain ⟨l, hl, hsound⟩ := hanswered .idUploadBackup
    dsimp only
    rw [hl]
    exact hsound
  | idUpload res errMsg =>
    obtain ⟨l, hl, hsound⟩ := hanswered .idUpload
    dsimp only
    rw [hl]
    exact hsound.onUpload hcalm
  | idUploading uploaded res errMsg =>
    obtain ⟨l, hl, hsound⟩ := hanswered .idUploading
    dsimp only
    rw [hl]
    exact hsound.onUploading hcalm
  | idUploadCompleted =>
    obtain ⟨l, hl, hsound⟩ := hanswered .idUploadCompleted
    dsimp only
    rw [hl]
    exact hsound.onUploadCompleted hcalm

/-! ### Every step -/

/-- A method goes on behind the user's code, with the others in theirs. -/
def CalmResume (gaps : List Gap) (v : List CContext) (callbacks : List Request) (aborted : List ℕ) :
    Gap → Prop
  | .Cancel _ => CalmBack gaps v.dropLast
  | .OnPostProcessing _ => CalmFront gaps v.tail
  | .idDownload none => v = []
  | .idUploadCompleted none => ∀ c ∈ v.head?, c.IsOpen = false
  | .failed _ abortJob => abortJob = true → ∀ r ∈ callbacks, r.owner ∉ aborted
  | .idDownload (some _) | .idUploadCompleted (some _) => True

/-- **A calm step**: no file is queued while `Cancel` is in the user's code; the context whose turn
it is has the callback, and no other method is at it; callbacks are cleaned when no method is at a
context, all contexts have theirs and no request under way carries one. -/
def Calm (maxDownloading : ℕ) (s : Streaming) : Step → Prop
  | .PostProcess _ _ _ => ∀ g ∈ s.gaps, g.inCancel = false
  | .Cancel => CalmBack s.gaps s.m_vContext
  | .OnPostProcessing env => CalmFront s.gaps (openFiles maxDownloading env 0 s.m_vContext).1
  | .OnResultReturned result env => CalmReply s.gaps s.m_vContext env result
  | .CleanCallbacks => (∀ g ∈ s.gaps, g.target = none) ∧ (∀ c ∈ s.m_vContext, c.Discarded = true) ∧
    s.m_vCallback = []
  | .resume g aborted => CalmResume (s.gaps.erase g) s.m_vContext s.m_vCallback aborted g

theorem sees_of_none (h : g.target = none) : g.Sees v := by
  cases g with
  | Cancel | OnPostProcessing | failed => cases h
  | idDownload id | idUploadCompleted id =>
    obtain rfl : id = none := h
    trivial

/-- **A file is queued** behind the others. -/
theorem Sound.push (h : s.Sound) (hcalm : ∀ g ∈ s.gaps, g.inCancel = false)
    (hid : c.id = s.pushed) :
    ({ s with m_vContext := s.m_vContext ++ [c], pushed := s.pushed + 1 } : Streaming).Sound where
  queued := by
    rw [ids, List.map_append, ← Multiset.coe_add, add_right_comm, List.map_singleton, hid,
      Multiset.range_succ, ← h.queued, add_comm, Multiset.coe_singleton, Multiset.singleton_add]
    rfl
  notified := h.notified
  pending := by
    rw [ids, List.map_append, ← Multiset.coe_add]
    exact h.pending.trans (Multiset.le_add_right _ _)
  sees g hg := by
    have hsees := h.sees g hg
    generalize s.m_vContext = v at hsees
    cases g with
    | Cancel id => cases hcalm _ hg
    | OnPostProcessing id | failed id =>
      cases v with
      | nil => cases hsees
      | cons d v => exact hsees
    | idDownload id =>
      cases id with
      | none => trivial
      | some id =>
        cases v with
        | nil => cases hsees
        | cons d v => exact hsees
    | idUploadCompleted id =>
      cases id with
      | none => trivial
      | some id =>
        obtain ⟨d, hd, hrest⟩ := hsees
        cases v with
        | nil => cases hd
        | cons e v => exact ⟨d, hd, hrest⟩

/-- **All files are discarded.** -/
theorem Sound.CleanCallbacks (h : s.Sound) (hgaps : ∀ g ∈ s.gaps, g.target = none)
    (hgiven : ∀ c ∈ s.m_vContext, c.Discarded = true) (hnone : s.m_vCallback = []) :
    s.CleanCallbacks.Sound := by
  have htargets : targets s.gaps = 0 := by
    rw [Multiset.eq_zero_iff_forall_notMem]
    intro id hid
    obtain ⟨g, hg, htarget⟩ := mem_targets.1 hid
    rw [hgaps g hg] at htarget
    cases htarget
  have hall : s.m_vContext.filter CContext.Discarded = s.m_vContext := List.filter_eq_self.2 hgiven
  have hnotified := h.notified
  rw [htargets, add_zero] at hnotified
  rw [Streaming.CleanCallbacks, hall, hnone, List.map_nil, List.append_nil]
  refine ⟨?_, ?_, ?_, fun g hg ↦ sees_of_none (hgaps g hg)⟩
  · rw [← h.queued, ← Multiset.coe_add, add_comm (ids s.m_vContext)]
    exact zero_add _
  · rw [htargets, add_zero, ← Multiset.coe_add, ← Multiset.coe_add, hnotified]
  · rw [htargets]
    exact Multiset.zero_le _

/-- A method that was at no context has ended. -/
theorem Sound.forget (h : s.Sound) (hg : g ∈ s.gaps) (htarget : g.target = none) :
    ({ s with gaps := s.gaps.erase g } : Streaming).Sound where
  queued := h.queued
  notified := by
    rw [← targets_erase_none hg htarget]
    exact h.notified
  pending := by
    rw [← targets_erase_none hg htarget]
    exact h.pending
  sees g' hg' := h.sees g' (List.mem_of_mem_erase hg')

theorem abortJob_none {aborted : List ℕ} (hnone : ∀ r ∈ s.m_vCallback, r.owner ∉ aborted) :
    s.abortJob aborted = s := by
  have hfilter : aborted.filter (fun id ↦ s.m_vCallback.any fun r ↦ r.owner == id) = [] := by
    rw [List.filter_eq_nil_iff]
    intro id hid hany
    obtain ⟨r, hr, howner⟩ := List.any_eq_true.1 hany
    exact hnone r hr (beq_iff_eq.1 howner ▸ hid)
  rw [Streaming.abortJob, hfilter, List.append_nil]

/-- **A method goes on.** -/
theorem Sound.afterGap (h : s.Sound) (hg : g ∈ s.gaps) {aborted : List ℕ}
    (hcalm : CalmResume (s.gaps.erase g) s.m_vContext s.m_vCallback aborted g) :
    (afterGap { s with gaps := s.gaps.erase g } aborted g).Sound := by
  have hsees := h.sees g hg
  cases g with
  | Cancel id => exact (h.popBack hg).Cancel hcalm
  | OnPostProcessing id => exact (h.popFront hg rfl hsees).popErrors hcalm
  | failed id abortJob =>
    have hpop := h.popFront hg rfl hsees
    rw [Streaming.afterGap]
    split_ifs with hqueue
    · rw [abortJob_none
        (s := Streaming.popFront { s with gaps := s.gaps.erase (.failed id abortJob) })
        (hcalm hqueue)]
      exact hpop
    · exact hpop
  | idDownload id =>
    cases id with
    | none =>
      have hv : s.m_vContext = [] := hcalm
      have hforget := h.forget hg rfl
      have hempty : ({ s with gaps := s.gaps.erase (.idDownload none) } : Streaming).popFront =
          { s with gaps := s.gaps.erase (.idDownload none) } := by
        rw [Streaming.popFront]
        dsimp only
        rw [hv, List.head?_nil, Option.map_none, Option.toList_none, List.append_nil, List.tail_nil,
          ← hv]
      rw [Streaming.afterGap, hempty]
      exact hforget
    | some id => exact h.popFront hg rfl hsees
  | idUploadCompleted id =>
    cases id with
    | none =>
      have hforget := h.forget hg rfl
      rw [Streaming.afterGap]
      split
      · exact hforget
      · next c rest hv =>
        rw [if_neg (Bool.eq_false_iff.1
          (hcalm c (by rw [show s.m_vContext = c :: rest from hv]; rfl)))]
        exact hforget
    | some id =>
      obtain ⟨c, hc, rfl, hopen⟩ := hsees
      obtain ⟨rest, hv⟩ := List.head?_eq_some_iff.1 hc
      have hpop := h.popFront hg rfl (by rw [hv]; rfl)
      have hgoes : Streaming.afterGap { s with gaps := s.gaps.erase (.idUploadCompleted (some c.id)) }
          aborted (.idUploadCompleted (some c.id)) =
          Streaming.popFront { s with gaps := s.gaps.erase (.idUploadCompleted (some c.id)) } := by
        rw [Streaming.afterGap]
        dsimp only
        rw [hv]
        exact if_pos hopen
      rw [hgoes]
      exact hpop

instance (gaps : List Gap) (id : ℕ) : Decidable (Free gaps id) :=
  inferInstanceAs (Decidable (∀ g ∈ gaps, g.target ≠ some id))

instance (gaps : List Gap) (v : List CContext) : Decidable (CalmBack gaps v) :=
  inferInstanceAs (Decidable (∀ c ∈ v.getLast?, _))

instance (gaps : List Gap) (v : List CContext) : Decidable (CalmFront gaps v) :=
  inferInstanceAs (Decidable (∀ c ∈ v.head?, _))

instance (gaps : List Gap) (c : CContext) : Decidable (CalmCall gaps c) :=
  inferInstanceAs (Decidable (_ ∧ _))

instance (gaps : List Gap) (v : List CContext) (env : Sending) (result : Result) :
    Decidable (CalmReply gaps v env result) := by
  cases result <;> unfold CalmReply <;> infer_instance

instance (gaps : List Gap) (v : List CContext) (callbacks : List Request) (aborted : List ℕ)
    (g : Gap) : Decidable (CalmResume gaps v callbacks aborted g) := by
  unfold CalmResume
  split <;> infer_instance

instance (maxDownloading : ℕ) (s : Streaming) (a : Step) :
    Decidable (Calm maxDownloading s a) := by
  cases a <;> unfold Calm <;> infer_instance

/-- **One step.** -/
theorem step_sound {maxDownloading : ℕ} {t : Streaming} {a : Step} (h : s.Sound)
    (hcalm : Calm maxDownloading s a) (hstep : step maxDownloading s a = some t) : t.Sound := by
  cases a with
  | PostProcess uploading download discarded =>
    obtain rfl := Option.some.inj hstep
    exact h.push hcalm rfl
  | Cancel =>
    obtain rfl := Option.some.inj hstep
    exact h.Cancel hcalm
  | OnPostProcessing env =>
    obtain rfl := Option.some.inj hstep
    exact h.OnPostProcessing hcalm
  | OnResultReturned result env =>
    obtain rfl := Option.some.inj hstep
    exact h.OnResultReturned hcalm
  | CleanCallbacks =>
    obtain rfl := Option.some.inj hstep
    exact h.CleanCallbacks hcalm.1 hcalm.2.1 hcalm.2.2
  | resume g aborted =>
    rw [step] at hstep
    split_ifs at hstep with hg
    obtain rfl := Option.some.inj hstep
    exact h.afterGap hg hcalm

theorem initial_sound : initial.Sound :=
  ⟨rfl, rfl, Multiset.zero_le _, fun _ hg ↦ absurd hg List.not_mem_nil⟩

/-- **Every file ends exactly once** in every calm run. -/
theorem files_end_once (maxDownloading : ℕ) (as : List Step) {s : Streaming}
    (hrun : run (step maxDownloading) initial as = some s)
    (hcalm : Within (step maxDownloading) (Calm maxDownloading) initial as) : s.EndsOnce :=
  (invariant_of_within (fun _ _ _ h hcalm hstep ↦ step_sound h hcalm hstep) as initial_sound hcalm
    hrun).endsOnce

/-- A download that ends while a file is cancelled, an upload that the server refuses, one that
cannot be opened, and a file that is discarded. -/
def someSteps : List Step :=
  [.PostProcess false true true, .PostProcess true true true,
    .OnPostProcessing fun _ ↦ Session.someFiles 0, .PostProcess true true true,
    .OnResultReturned (.idDownload 0 "") Session.allSent, .Cancel, .resume (.Cancel 2) [],
    .resume (.idDownload (some 0)) [], .PostProcess true true true,
    .OnPostProcessing fun _ ↦ Session.someFiles 0,
    .OnResultReturned (.idUpload 13 "Permission denied") Session.allSent,
    .resume (.failed 1 false) [], .OnPostProcessing fun _ ↦ Session.someFiles 1,
    .resume (.OnPostProcessing 3) [], .PostProcess false false true, .CleanCallbacks]

theorem files_end_once_someSteps :
    (run (step 2) initial someSteps).isSome = true ∧
      ∀ s, run (step 2) initial someSteps = some s → s.EndsOnce :=
  ⟨by decide +kernel, fun _ hrun ↦ files_end_once 2 someSteps hrun (by decide +kernel)⟩

/-- A file is queued while `Cancel` is at the one before it. -/
def queuedInCancel : List Step :=
  [.PostProcess false true true, .Cancel, .PostProcess false true true, .resume (.Cancel 0) []]

/-- **The file that was queued is removed**, no callback of it is called, and the other one is told
of its end twice. -/
theorem not_endsOnce :
    ¬ ∀ (maxDownloading : ℕ) (as : List Step) (s : Streaming),
      run (step maxDownloading) initial as = some s → s.EndsOnce := by
  intro h
  have hrun : (run (step 1) initial queuedInCancel).map (fun s ↦ (s.removed, s.notified)) =
      some ([1], [0, 0]) := by
    decide +kernel
  obtain ⟨s, hs, heq⟩ := Option.map_eq_some_iff.1 hrun
  obtain ⟨hremoved, hnotified⟩ := Prod.mk.inj heq
  have htold := (h 1 queuedInCancel s hs).removed_notified 1 (by rw [hremoved]; decide)
  rw [hnotified] at htold
  exact absurd htold (by decide)

end Streaming

end SocketPro.FileStream
