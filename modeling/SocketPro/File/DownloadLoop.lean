import SocketPro.File.UploadReplay

/-!
# Downloads at the server

`Download` of `sfileimpl.cpp` in its POSIX branch, for a file that nobody changes, and the result
that is sent when it returns. The upload that `CleanOF` drops at its beginning is the subject of
another module.

The system and the socket answer as they like: `open`, `fcntl`, `fstat` and each `read` may fail, a
`read` may return less than it is asked for, an interrupt option may be there before each chunk, and
each `SendResult` may be refused. `cut` is how the reads divide the file into chunks.

**An interrupt does not end the loop**: it sets `res`, and the chunk is sent all the same. And where
a chunk is refused without an interrupt, `res` is still 0. `download_honest_iff` says that nothing
else goes wrong.
-/

namespace SocketPro.File

open Posix

/-- `FILE_DOWNLOADING_INTERRUPTED`. -/
def FILE_DOWNLOADING_INTERRUPTED : ℤ := -4

theorem interrupted_ne_zero : FILE_DOWNLOADING_INTERRUPTED ≠ 0 := by decide

/-- The `errno` of a call that has failed. -/
abbrev Errno := {e : ℤ // e ≠ 0}

/-- What `read` does: it fails, or it returns at most `n + 1` bytes. Of a file that has more, it
returns at least one. -/
inductive Read
  | failed (errno : Errno)
  | upTo (n : ℕ)

/-- The fields of the message `idStartDownloading`. -/
structure StartDownloading where
  StreamSize : ℕ
  localFile : String
  filePath : String
  flags : UInt32
  initSize : ℤ
deriving DecidableEq, Repr

/-- How the system and the socket answer in one call of `Download`. -/
structure DownloadAnswers where
  openErrno : Option Errno := none
  lockErrno : Option Errno := none
  statErrno : Option Errno := none
  strerror : ℤ → String := fun _ ↦ ""
  /-- The `k`-th read. -/
  read : ℕ → Read
  /-- `GetInterruptOptions` before the `k`-th chunk. -/
  interruptOptions : ℕ → UInt64 := fun _ ↦ 0
  /-- Whether `SendResult(idStartDownloading, ..)` sends it all. -/
  startSent : Bool := true
  /-- Whether `SendResult(idDownloading, ..)` sends all of the `k`-th chunk. -/
  chunkSent : ℕ → Bool := fun _ ↦ true
  /-- Whether the result is sent when `Download` has returned. -/
  resultSent : Bool := true

/-- One pass through the loop: the chunk, whether an interrupt option was seen before it, and
whether it was sent. -/
structure Round where
  chunk : Content
  interrupted : Bool
  sent : Bool
deriving DecidableEq, Repr

/-- What the loop does and the `res` and `errMsg` that it leaves. -/
structure LoopOutcome where
  res : ℤ
  errMsg : String
  rounds : List Round
deriving DecidableEq, Repr

/-- The size of the next `read`. -/
def readSize (StreamSize : ℕ) : ℕ :=
  if StreamSize > STREAM_CHUNK_SIZE then STREAM_CHUNK_SIZE else StreamSize

namespace DownloadAnswers

variable (a : DownloadAnswers)

/-- The `k`-th `read`, of a file of which `rest` has not been read. -/
def readChunk (k StreamSize : ℕ) (rest : Content) : Except Errno Content :=
  match a.read k with
  | .failed errno => .error errno
  | .upTo n => .ok (rest.take (min (readSize StreamSize) (n + 1)))

/-- The loop, from the `k`-th `read` on. -/
def loop : ℕ → ℕ → Content → ℕ → ℤ → String → Option LoopOutcome
  | 0, _, _, _, _, _ => none
  | fuel + 1, k, rest, StreamSize, res, errMsg =>
    match a.readChunk k StreamSize rest with
    | .error errno => some ⟨errno, a.strerror errno, []⟩
    | .ok [] => some ⟨res, errMsg, []⟩
    | .ok chunk =>
      let interrupted := decide (a.interruptOptions k ≠ 0)
      let res := if interrupted then FILE_DOWNLOADING_INTERRUPTED else res
      let errMsg := if interrupted then "File downloading interrupted" else errMsg
      if a.chunkSent k then
        (loop fuel (k + 1) (rest.drop chunk.length) (StreamSize - chunk.length) res errMsg).map
          fun out ↦ { out with rounds := ⟨chunk, interrupted, true⟩ :: out.rounds }
      else some ⟨res, errMsg, [⟨chunk, interrupted, false⟩]⟩

end DownloadAnswers

/-- What a call of `Download` has sent, and what it has found. -/
structure Downloaded where
  started : Option StartDownloading
  rounds : List Round
  /-- The result, if it is sent. -/
  result : Option (ℤ × String)
deriving DecidableEq, Repr

/-- `Download`, and the result sent by the dispatcher; `none` when the fuel is used up. -/
def DownloadAnswers.Download (a : DownloadAnswers) (localFile filePath : String) (flags : UInt32)
    (initSize : ℤ) (file : Content) (fuel : ℕ) : Option Downloaded :=
  let result (res : ℤ) (errMsg : String) : Option (ℤ × String) :=
    if a.resultSent then some (res, errMsg) else none
  let failed (errno : Errno) : Downloaded := ⟨none, [], result errno (a.strerror errno)⟩
  match a.openErrno with
  | some errno => some (failed errno)
  | none =>
    match if has flags FILE_OPEN_SHARE_READ then none else a.lockErrno with
    | some errno => some (failed errno)
    | none =>
      match a.statErrno with
      | some errno => some (failed errno)
      | none =>
        if a.startSent then
          (a.loop fuel 0 file file.length 0 "").map fun out ↦
            ⟨some ⟨file.length, localFile, filePath, flags, initSize⟩, out.rounds,
              result out.res out.errMsg⟩
        else some ⟨none, [], result 0 ""⟩

/-! ### Honest downloads -/

/-- The payloads of the messages `idDownloading`. -/
def payloads (rounds : List Round) : List Content := (rounds.filter Round.sent).map Round.chunk

/-- After an interrupt option has been seen before a chunk, neither this chunk nor a later one is
sent, and the result is `FILE_DOWNLOADING_INTERRUPTED`. -/
def StopsAtInterrupt (rounds : List Round) (Result : ℤ → Prop) : Prop :=
  ∀ before r after, rounds = before ++ r :: after → r.interrupted = true →
    payloads (r :: after) = [] ∧ ∀ res, Result res → res = FILE_DOWNLOADING_INTERRUPTED

/-- The result 0 means that the size of the file has been announced and all of it has been sent; and
an interrupt stops the download. -/
structure Downloaded.Honest (file : Content) (d : Downloaded) : Prop where
  complete : ∀ errMsg, d.result = some (0, errMsg) →
    d.started.map StartDownloading.StreamSize = some file.length ∧
      (payloads d.rounds).flatten = file
  interrupted : StopsAtInterrupt d.rounds fun res ↦ ∃ errMsg, d.result = some (res, errMsg)

/-- The same for the loop, from a point on where `rest` has not been read. -/
structure LoopOutcome.Honest (resultSent : Bool) (rest : Content) (out : LoopOutcome) : Prop where
  complete : resultSent = true → out.res = 0 → (payloads out.rounds).flatten = rest
  interrupted : StopsAtInterrupt out.rounds fun res ↦ resultSent = true ∧ res = out.res

namespace DownloadAnswers

variable (a : DownloadAnswers)

/-- The chunks that the reads divide a file into, from the `k`-th on, until one fails or finds the
end. -/
def cut : ℕ → ℕ → Content → List Content
  | 0, _, _ => []
  | fuel + 1, k, rest =>
    match a.readChunk k rest.length rest with
    | .error _ => []
    | .ok [] => []
    | .ok chunk => chunk :: cut fuel (k + 1) (rest.drop chunk.length)

/-- Of `n` chunks from the `k`-th on, the first one that is interrupted or refused, if any, is
refused, and it is interrupted or the result is refused as well. -/
def Undisturbed (k n : ℕ) : Prop :=
  ∀ i < n, (∀ j < i, a.chunkSent (k + j) = true) →
    if a.interruptOptions (k + i) ≠ 0 then a.chunkSent (k + i) = false
    else a.chunkSent (k + i) = true ∨ a.resultSent = false

variable {a}

/-- A chunk is a piece of what has not been read, and empty only at the end. -/
theorem readChunk_eq_ok {k : ℕ} {rest chunk : Content}
    (h : a.readChunk k rest.length rest = .ok chunk) :
    rest = chunk ++ rest.drop chunk.length ∧ (chunk = [] ↔ rest = []) := by
  unfold readChunk at h
  cases hread : a.read k with
  | failed errno => rw [hread] at h; cases h
  | upTo n =>
    rw [hread] at h
    obtain rfl := Except.ok.inj h
    have hpos : 0 < STREAM_CHUNK_SIZE := by decide
    refine ⟨(List.prefix_iff_eq_append.1 (List.take_prefix _ _)).symm, ?_⟩
    rw [List.take_eq_nil_iff]
    constructor
    · rintro (hzero | hnil)
      · refine List.length_eq_zero_iff.1 ?_
        unfold readSize at hzero
        split_ifs at hzero <;> omega
      · exact hnil
    · exact .inr

/-- What the reads have not returned is shorter after each chunk. -/
theorem length_drop_lt {k fuel : ℕ} {rest chunk : Content}
    (hread : a.readChunk k rest.length rest = .ok chunk) (hne : chunk ≠ [])
    (hlt : rest.length < fuel + 1) : (rest.drop chunk.length).length < fuel := by
  have hpos : 0 < rest.length :=
    List.length_pos_iff.2 fun hnil ↦ hne ((readChunk_eq_ok hread).2.2 hnil)
  have hpos' : 0 < chunk.length := List.length_pos_iff.2 hne
  rw [List.length_drop]
  omega

/-- The effect of one pass on what the rest of the loop finds. -/
def Round.before (r : Round) (out : LoopOutcome) : LoopOutcome :=
  { out with rounds := r :: out.rounds }

theorem loop_round {fuel k : ℕ} {rest chunk : Content} (res : ℤ) (errMsg : String)
    (hread : a.readChunk k rest.length rest = .ok chunk) (hne : chunk ≠ []) :
    a.loop (fuel + 1) k rest rest.length res errMsg =
      let interrupted := decide (a.interruptOptions k ≠ 0)
      let res := if interrupted then FILE_DOWNLOADING_INTERRUPTED else res
      let errMsg := if interrupted then "File downloading interrupted" else errMsg
      if a.chunkSent k then
        (a.loop fuel (k + 1) (rest.drop chunk.length) (rest.drop chunk.length).length res
          errMsg).map (Round.before ⟨chunk, interrupted, true⟩)
      else some ⟨res, errMsg, [⟨chunk, interrupted, false⟩]⟩ := by
  cases chunk with
  | nil => exact absurd rfl hne
  | cons b chunk => rw [loop, hread, List.length_drop]; rfl

theorem cut_round {fuel k : ℕ} {rest chunk : Content}
    (hread : a.readChunk k rest.length rest = .ok chunk) (hne : chunk ≠ []) :
    a.cut (fuel + 1) k rest = chunk :: a.cut fuel (k + 1) (rest.drop chunk.length) := by
  cases chunk with
  | nil => exact absurd rfl hne
  | cons b chunk => rw [cut, hread]

/-- **The loop ends.** -/
theorem loop_ends {fuel : ℕ} : ∀ {k : ℕ} {rest : Content} (res : ℤ) (errMsg : String),
    rest.length < fuel → ∃ out, a.loop fuel k rest rest.length res errMsg = some out := by
  induction fuel with
  | zero => exact fun _ _ hlt ↦ absurd hlt (Nat.not_lt_zero _)
  | succ fuel ih =>
    intro k rest res errMsg hlt
    cases hread : a.readChunk k rest.length rest with
    | error errno => exact ⟨_, by rw [loop, hread]⟩
    | ok chunk =>
      by_cases hne : chunk = []
      · exact ⟨_, by rw [loop, hread, hne]⟩
      · rw [loop_round res errMsg hread hne]
        dsimp only
        split
        · obtain ⟨out, hout⟩ := ih _ _ (length_drop_lt hread hne hlt)
          exact ⟨_, congrArg (Option.map _) hout⟩
        · exact ⟨_, rfl⟩

/-- More fuel changes nothing. -/
theorem loop_unique {fuel : ℕ} : ∀ {fuel' k : ℕ} {rest : Content} {StreamSize : ℕ} {res : ℤ}
    {errMsg : String} {out out' : LoopOutcome},
    a.loop fuel k rest StreamSize res errMsg = some out →
    a.loop fuel' k rest StreamSize res errMsg = some out' → out = out' := by
  induction fuel with
  | zero => exact fun h ↦ by cases h
  | succ fuel ih =>
    intro fuel' k rest StreamSize res errMsg out out' h h'
    cases fuel' with
    | zero => cases h'
    | succ fuel' =>
      rw [loop] at h h'
      cases hread : a.readChunk k StreamSize rest with
      | error errno =>
        rw [hread] at h h'
        exact Option.some.inj (h.symm.trans h')
      | ok chunk =>
        rw [hread] at h h'
        cases chunk with
        | nil => exact Option.some.inj (h.symm.trans h')
        | cons b chunk =>
          dsimp only at h h'
          split at h
          · next hsent =>
            rw [if_pos hsent] at h'
            obtain ⟨o, ho, rfl⟩ := Option.map_eq_some_iff.1 h
            obtain ⟨o', ho', rfl⟩ := Option.map_eq_some_iff.1 h'
            rw [ih ho ho']
          · next hsent =>
            rw [if_neg hsent] at h'
            exact Option.some.inj (h.symm.trans h')

theorem stopsAtInterrupt_cons {r : Round} {rounds : List Round} {Result : ℤ → Prop} :
    StopsAtInterrupt (r :: rounds) Result ↔
      (r.interrupted = true →
        payloads (r :: rounds) = [] ∧ ∀ res, Result res → res = FILE_DOWNLOADING_INTERRUPTED) ∧
      StopsAtInterrupt rounds Result := by
  constructor
  · intro h
    refine ⟨h [] r rounds rfl, fun before r' after heq ↦ h (r :: before) r' after ?_⟩
    rw [heq, List.cons_append]
  · rintro ⟨hhead, htail⟩ before r' after heq
    cases before with
    | nil =>
      obtain ⟨rfl, rfl⟩ := List.cons.inj heq
      exact hhead
    | cons _ before => exact htail before r' after (List.cons.inj heq).2

theorem stopsAtInterrupt_nil {Result : ℤ → Prop} : StopsAtInterrupt [] Result :=
  fun _ _ _ heq ↦ by simp at heq

theorem undisturbed_zero {k : ℕ} : a.Undisturbed k 0 := fun i hi ↦ absurd hi (Nat.not_lt_zero i)

theorem undisturbed_succ {k n : ℕ} :
    a.Undisturbed k (n + 1) ↔
      (if a.interruptOptions k ≠ 0 then a.chunkSent k = false
        else a.chunkSent k = true ∨ a.resultSent = false) ∧
      (a.chunkSent k = true → a.Undisturbed (k + 1) n) := by
  have hindex (i : ℕ) : k + (i + 1) = k + 1 + i := by omega
  constructor
  · intro h
    refine ⟨h 0 (Nat.succ_pos n) fun j hj ↦ absurd hj (Nat.not_lt_zero j), fun hsent i hi hall ↦ ?_⟩
    have hi' := h (i + 1) (Nat.succ_lt_succ hi) fun j hj ↦ by
      cases j with
      | zero => exact hsent
      | succ j => rw [hindex]; exact hall j (Nat.lt_of_succ_lt_succ hj)
    rwa [hindex] at hi'
  · rintro ⟨hfirst, hrest⟩ i hi hall
    cases i with
    | zero => exact hfirst
    | succ i =>
      rw [hindex]
      refine hrest (hall 0 (Nat.succ_pos i)) i (Nat.lt_of_succ_lt_succ hi) fun j hj ↦ ?_
      rw [← hindex]
      exact hall (j + 1) (Nat.succ_lt_succ hj)

/-- A pass whose chunk is sent without an interrupt decides nothing. -/
theorem honest_before {rest chunk : Content} {resultSent : Bool}
    (hsplit : rest = chunk ++ rest.drop chunk.length) (out : LoopOutcome) :
    (Round.before ⟨chunk, false, true⟩ out).Honest resultSent rest ↔
      out.Honest resultSent (rest.drop chunk.length) := by
  have hflatten : (payloads (⟨chunk, false, true⟩ :: out.rounds)).flatten = rest ↔
      (payloads out.rounds).flatten = rest.drop chunk.length := by
    constructor
    · intro h
      have happend : chunk ++ (payloads out.rounds).flatten = chunk ++ rest.drop chunk.length :=
        h.trans hsplit
      exact List.append_cancel_left happend
    · intro h
      rw [hsplit, ← h]
      rfl
  constructor
  · intro h
    exact ⟨fun hsent hzero ↦ hflatten.1 (h.complete hsent hzero),
      (stopsAtInterrupt_cons.1 h.interrupted).2⟩
  · intro h
    exact ⟨fun hsent hzero ↦ hflatten.2 (h.complete hsent hzero),
      stopsAtInterrupt_cons.2 ⟨fun hfalse ↦ absurd hfalse Bool.false_ne_true, h.interrupted⟩⟩

/-- **The loop**, by induction on its passes: an interrupted chunk that is sent decides against it,
one that is refused ends it, and any other leaves it to the rest. -/
theorem loop_honest_iff {fuel : ℕ} : ∀ {k : ℕ} {rest : Content}, rest.length < fuel →
    ∃ out, a.loop fuel k rest rest.length 0 "" = some out ∧
      (out.Honest a.resultSent rest ↔ a.Undisturbed k (a.cut fuel k rest).length) := by
  induction fuel with
  | zero => exact fun hlt ↦ absurd hlt (Nat.not_lt_zero _)
  | succ fuel ih =>
    intro k rest hlt
    cases hread : a.readChunk k rest.length rest with
    | error errno =>
      refine ⟨⟨errno, a.strerror errno, []⟩, by rw [loop, hread], iff_of_true ⟨?_, ?_⟩ ?_⟩
      · exact fun _ hzero ↦ absurd hzero errno.2
      · exact stopsAtInterrupt_nil
      · rw [cut, hread]
        exact undisturbed_zero
    | ok chunk =>
      obtain ⟨hsplit, hnil⟩ := readChunk_eq_ok hread
      by_cases hne : chunk = []
      · subst hne
        refine ⟨⟨0, "", []⟩, by rw [loop, hread], iff_of_true ⟨?_, ?_⟩ ?_⟩
        · exact fun _ _ ↦ (hnil.1 rfl).symm
        · exact stopsAtInterrupt_nil
        · rw [cut, hread]
          exact undisturbed_zero
      have hshort := length_drop_lt hread hne hlt
      rw [loop_round 0 "" hread hne, cut_round hread hne, List.length_cons, undisturbed_succ]
      cases hsent : a.chunkSent k with
      | false =>
        by_cases hint : a.interruptOptions k = 0
        · -- refused without an interrupt: the result is 0
          refine ⟨⟨0, "", [⟨chunk, false, false⟩]⟩, by simp [hint], ?_⟩
          have hrest : rest ≠ [] := fun h ↦ hne (hnil.2 h)
          have hstops : StopsAtInterrupt [⟨chunk, false, false⟩] fun res ↦
              a.resultSent = true ∧ res = 0 :=
            stopsAtInterrupt_cons.2
              ⟨fun hfalse ↦ absurd hfalse Bool.false_ne_true, stopsAtInterrupt_nil⟩
          constructor
          · intro h
            have hlost : ¬ a.resultSent = true := fun hresult ↦ hrest (h.complete hresult rfl).symm
            simp [hint, hlost]
          · intro h
            have hlost : a.resultSent = false := by simpa [hint] using h
            exact ⟨fun hresult ↦ by simp [hlost] at hresult, hstops⟩
        · refine ⟨⟨FILE_DOWNLOADING_INTERRUPTED, "File downloading interrupted",
            [⟨chunk, true, false⟩]⟩, by simp [hint], iff_of_true ⟨?_, ?_⟩ (by simp [hint])⟩
          · exact fun _ hzero ↦ absurd hzero interrupted_ne_zero
          · exact stopsAtInterrupt_cons.2 ⟨fun _ ↦ ⟨rfl, fun _ hres ↦ hres.2⟩, stopsAtInterrupt_nil⟩
      | true =>
        by_cases hint : a.interruptOptions k = 0
        · obtain ⟨out, hout, hiff⟩ := ih (k := k + 1) hshort
          refine ⟨Round.before ⟨chunk, false, true⟩ out, by simp [hint, hout, -List.length_drop], ?_⟩
          rw [honest_before hsplit, hiff]
          simp [hint]
        · -- the chunk is sent in spite of the interrupt
          obtain ⟨out, hout⟩ := loop_ends (a := a) (k := k + 1) FILE_DOWNLOADING_INTERRUPTED
            "File downloading interrupted" hshort
          refine ⟨Round.before ⟨chunk, true, true⟩ out, by simp [hint, hout, -List.length_drop],
            iff_of_false ?_ ?_⟩
          · intro h
            have hfirst := (stopsAtInterrupt_cons.1 h.interrupted).1 rfl
            cases hfirst.1
          · simp [hint]

/-! ### Whole downloads -/

theorem honest_of_loop {resultSent : Bool} {file : Content} {start : StartDownloading}
    (hstart : start.StreamSize = file.length) (out : LoopOutcome) :
    Downloaded.Honest file
        ⟨some start, out.rounds, if resultSent = true then some (out.res, out.errMsg) else none⟩ ↔
      out.Honest resultSent file := by
  have hresult (res : ℤ) : (∃ errMsg, (if resultSent = true then some (out.res, out.errMsg)
      else none) = some (res, errMsg)) ↔ resultSent = true ∧ res = out.res := by
    cases resultSent with
    | false => simp
    | true => simp [eq_comm]
  constructor
  · rintro ⟨hcomplete, hinterrupted⟩
    refine ⟨fun hsent hzero ↦ ?_, fun before r after heq hr ↦ ?_⟩
    · exact (hcomplete out.errMsg (by rw [if_pos hsent, hzero])).2
    · obtain ⟨hnone, hres⟩ := hinterrupted before r after heq hr
      exact ⟨hnone, fun res h ↦ hres res ((hresult res).2 h)⟩
  · rintro ⟨hcomplete, hinterrupted⟩
    refine ⟨fun errMsg h ↦ ?_, fun before r after heq hr ↦ ?_⟩
    · obtain ⟨hsent, hzero⟩ := (hresult 0).1 ⟨errMsg, h⟩
      exact ⟨congrArg some hstart, hcomplete hsent hzero.symm⟩
    · obtain ⟨hnone, hres⟩ := hinterrupted before r after heq hr
      exact ⟨hnone, fun res h ↦ hres res ((hresult res).1 h)⟩

/-- A download that fails before it begins is honest. -/
theorem honest_of_failed (file : Content) (resultSent : Bool) (errno : Errno) (errMsg : String) :
    Downloaded.Honest file
      ⟨none, [], if resultSent = true then some (errno.1, errMsg) else none⟩ := by
  refine ⟨fun errMsg' h ↦ ?_, stopsAtInterrupt_nil⟩
  cases resultSent with
  | false => simp at h
  | true => exact absurd (congrArg Prod.fst (Option.some.inj h)) errno.2

/-- The file can be opened, locked unless the flags do not ask for it, and measured. -/
def Opens (a : DownloadAnswers) (flags : UInt32) : Prop :=
  a.openErrno = none ∧ (if has flags FILE_OPEN_SHARE_READ then none else a.lockErrno) = none ∧
    a.statErrno = none

/-- If the file can be opened, nothing is sent after an interrupt, and where a message is refused
without an interrupt, the result is refused as well. -/
def Quiet (a : DownloadAnswers) (flags : UInt32) (file : Content) : Prop :=
  a.Opens flags →
    if a.startSent = true then a.Undisturbed 0 (a.cut (file.length + 1) 0 file).length
    else a.resultSent = false

variable {localFile filePath : String} {flags : UInt32} {initSize : ℤ} {file : Content}

/-- A call returns the same for any fuel that suffices. -/
theorem download_unique {fuel fuel' : ℕ} {d d' : Downloaded}
    (h : a.Download localFile filePath flags initSize file fuel = some d)
    (h' : a.Download localFile filePath flags initSize file fuel' = some d') : d = d' := by
  revert h h'
  unfold Download
  cases a.openErrno with
  | some errno => exact fun h h' ↦ Option.some.inj (h.symm.trans h')
  | none =>
    dsimp only
    cases (if has flags FILE_OPEN_SHARE_READ then none else a.lockErrno) with
    | some errno => exact fun h h' ↦ Option.some.inj (h.symm.trans h')
    | none =>
      cases a.statErrno with
      | some errno => exact fun h h' ↦ Option.some.inj (h.symm.trans h')
      | none =>
        dsimp only
        split
        · intro h h'
          obtain ⟨out, hout, rfl⟩ := Option.map_eq_some_iff.1 h
          obtain ⟨out', hout', rfl⟩ := Option.map_eq_some_iff.1 h'
          rw [loop_unique hout hout']
        · exact fun h h' ↦ Option.some.inj (h.symm.trans h')

/-- **Every call returns**, with fuel for one more read than the file has bytes. -/
theorem download_returns (a : DownloadAnswers) (localFile filePath : String) (flags : UInt32)
    (initSize : ℤ) (file : Content) :
    ∃ d, a.Download localFile filePath flags initSize file (file.length + 1) = some d ∧
      (d.Honest file ↔ a.Quiet flags file) := by
  unfold Download Quiet Opens
  cases hopen : a.openErrno with
  | some errno => exact ⟨_, rfl, iff_of_true (honest_of_failed ..) fun h ↦ by cases h.1⟩
  | none =>
    dsimp only
    cases hlock : (if has flags FILE_OPEN_SHARE_READ then none else a.lockErrno) with
    | some errno => exact ⟨_, rfl, iff_of_true (honest_of_failed ..) fun h ↦ by cases h.2.1⟩
    | none =>
      cases hstat : a.statErrno with
      | some errno => exact ⟨_, rfl, iff_of_true (honest_of_failed ..) fun h ↦ by cases h.2.2⟩
      | none =>
        dsimp only
        simp only [and_self, forall_const]
        cases hstart : a.startSent with
        | true =>
          obtain ⟨out, hout, hiff⟩ := loop_honest_iff (a := a) (k := 0) (Nat.lt_succ_self file.length)
          refine ⟨_, congrArg (Option.map _) hout, ?_⟩
          rw [if_pos rfl, ← hiff]
          exact honest_of_loop rfl out
        | false =>
          refine ⟨_, rfl, ?_⟩
          rw [if_neg Bool.false_ne_true]
          constructor
          · intro h
            by_contra hsent
            have hnone := (h.complete "" (by simp [hsent])).1
            cases hnone
          · intro hsent
            refine ⟨fun errMsg h ↦ ?_, stopsAtInterrupt_nil⟩
            simp [hsent] at h

/-- **When a download is honest**, for every file, request and way the system and the socket answer:
the call returns, 0 means that all has been sent, and an interrupt stops it. -/
theorem download_honest_iff (a : DownloadAnswers) (localFile filePath : String) (flags : UInt32)
    (initSize : ℤ) (file : Content) :
    (∃ fuel d, a.Download localFile filePath flags initSize file fuel = some d ∧
      d.Honest file) ↔ a.Quiet flags file := by
  obtain ⟨d, hd, hiff⟩ := download_returns a localFile filePath flags initSize file
  rw [← hiff]
  constructor
  · rintro ⟨fuel, d', hd', hhonest⟩
    rwa [download_unique hd hd']
  · exact fun hhonest ↦ ⟨_, d, hd, hhonest⟩

/-- A file of one byte; an interrupt option is there before its chunk. -/
theorem not_download_honest :
    ¬ ∃ fuel d, Download { read := fun _ ↦ .upTo 0, interruptOptions := fun _ ↦ 1 } "a" "b" 0 (-1)
      [1] fuel = some d ∧ d.Honest [1] := by
  rintro ⟨fuel, d, hd, hhonest⟩
  have hd' : Download { read := fun _ ↦ .upTo 0, interruptOptions := fun _ ↦ 1 } "a" "b" 0 (-1)
      [1] 2 = some ⟨some ⟨1, "a", "b", 0, -1⟩, [⟨[1], true, true⟩],
        some (-4, "File downloading interrupted")⟩ := by
    decide +kernel
  obtain rfl := download_unique hd hd'
  exact absurd (hhonest.interrupted [] ⟨[1], true, true⟩ [] rfl rfl).1 (by decide)

end DownloadAnswers

end SocketPro.File
