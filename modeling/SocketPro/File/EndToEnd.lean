import SocketPro.File.UploadWindow
import SocketPro.File.DownloadLoop
import SocketPro.File.LocalFile
import SocketPro.Foundation.Run

/-!
# Transfers from one end to the other

The client of `streamingfile.h` and the server of `sfileimpl.cpp` at the two ends of one connection,
which keeps the order of what is sent.

**An upload** is a run of three parties: the window of the client, the peer with its target file, and
the results that are on their way back. `Synchronized` says that the peer is where the requests
handled so far have brought it. So the target holds a first part of the file at any time, and all of
it when the client is done (`upload_arrives`).

**A download** ends with the file at the client, or with what `CloseFile` leaves
(`download_arrives`).
-/

namespace SocketPro.File

open Posix Machine

/-! ### Uploads -/

/-- `OnSlowRequestArrive`, for the requests behind `idUpload`. -/
def Server.OnSlowRequestArrive (flags : UInt32) (s : Server) : UploadRequest → Server
  | .idUploadBackup initSize => s.UploadBackup flags initSize
  | .idUploading chunk => s.Uploading chunk
  | .idUploadCompleted => s.UploadCompleted

/-- The two ends, and the positions in the results that are on their way. -/
structure Connection where
  client : Uploader
  server : Server
  results : List ℕ

/-- The server handles the next request, or the client gets the next result. -/
inductive Turn
  | serve
  | answer

namespace Connection

variable (flags : UInt32) (c : Connection)

/-- `idUpload` has been answered. -/
def start (a : SocketAnswers) (old : Option Content) (file : Content) : Connection :=
  let (initPos, server) := Server.Upload ⟨CSFileImpl.new, old⟩ flags
  ⟨(Uploader.opened file).idUpload a 0 "" initPos, server, []⟩

def step : Turn → Option Connection
  | .serve => c.client.inFlight[c.results.length]?.map fun r ↦
      let server := c.server.OnSlowRequestArrive flags r
      ⟨c.client, server, c.results ++ [server.peer.m_oPos]⟩
  | .answer =>
    match c.results with
    | [] => none
    | pos :: results => some ⟨c.client.answer pos, c.server, results⟩

/-- The requests that the server has handled. -/
def handled : List UploadRequest :=
  c.client.requests.take (c.client.answered.length + c.results.length)

/-- The peer is where the requests have brought it. -/
structure Synchronized (old : Option Content) (file : Content) : Prop where
  window : Window file c.client
  server : c.server = c.handled.foldl (Server.OnSlowRequestArrive flags)
    (Server.Upload ⟨CSFileImpl.new, old⟩ flags).2
  results : c.results.length ≤ c.client.inFlight.length

/-- What is left to be served and answered, at most. -/
def fuel : ℕ := 2 * c.client.fuel - c.results.length

end Connection

/-! ### One turn -/

theorem Uploader.idUpload_answered (a : SocketAnswers) (file : Content) (initSize : ℤ) :
    ((opened file).idUpload a 0 "" initSize).answered = [] := by
  simp only [idUpload, opened, ne_eq, not_true_eq_false, or_self, if_false, foldl_sendRequest]
  rw [sendLast_eq _ rfl]
  cases a.queueAvailable <;> rfl

/-- The answer to the oldest request takes it out of the window and may add others. -/
theorem Uploader.answer_extends {s : Uploader} {r : UploadRequest} {rest : List UploadRequest}
    (h : s.inFlight = r :: rest) (pos : ℕ) :
    (s.answer pos).answered = s.answered ++ [r] ∧ rest <+: (s.answer pos).inFlight := by
  have huploading (t : Uploader) : (t.idUploading pos 0 "").answered = t.answered ∧
      t.inFlight <+: (t.idUploading pos 0 "").inFlight := by
    cases hc : t.context with
    | none =>
      simp only [idUploading, hc]
      exact ⟨trivial, List.prefix_refl _⟩
    | some c =>
      rw [idUploading_acknowledged hc]
      split_ifs with hsent
      · exact ⟨rfl, List.prefix_refl _⟩
      · rw [sendLast_eq _ (by simpa using hsent)]
        exact ⟨rfl, List.prefix_append _ _⟩
  rw [answer, h]
  cases r with
  | idUploadBackup initSize => exact ⟨rfl, List.prefix_refl _⟩
  | idUploading chunk => exact huploading ⟨s.context, s.answered ++ [_], rest⟩
  | idUploadCompleted => exact ⟨rfl, List.prefix_refl _⟩

namespace Connection

variable {flags : UInt32} {c c' : Connection} {old : Option Content} {file : Content}

theorem start_synchronized (a : SocketAnswers) :
    (start flags a old file).Synchronized flags old file := by
  refine ⟨Uploader.idUpload_window a file _, ?_, Nat.zero_le _⟩
  have hanswered : (start flags a old file).client.answered = [] :=
    Uploader.idUpload_answered a file _
  rw [handled, hanswered]
  rfl

/-- **One turn** keeps the ends together and brings the end nearer. -/
theorem step_synchronized (h : c.Synchronized flags old file) {turn : Turn}
    (hstep : c.step flags turn = some c') :
    c'.Synchronized flags old file ∧ c'.fuel < c.fuel := by
  have hle : c.client.inFlight.length ≤ c.client.fuel := by
    rw [Uploader.fuel]
    omega
  have hresults := h.results
  cases turn with
  | serve =>
    obtain ⟨r, hr, rfl⟩ := Option.map_eq_some_iff.1 hstep
    have hlt := (List.getElem?_eq_some_iff.1 hr).1
    refine ⟨⟨h.window, ?_, ?_⟩, ?_⟩
    · have hnext : c.client.requests[c.client.answered.length + c.results.length]? = some r := by
        rw [Uploader.requests, List.getElem?_append_right (Nat.le_add_right _ _),
          Nat.add_sub_cancel_left, hr]
      rw [handled, List.length_append, List.length_singleton, ← Nat.add_assoc, List.take_add_one,
        hnext, Option.toList_some, List.foldl_append, List.foldl_cons, List.foldl_nil]
      exact congrArg (Server.OnSlowRequestArrive flags · r) h.server
    · rw [List.length_append, List.length_singleton]
      exact hlt
    · simp only [fuel, List.length_append, List.length_singleton]
      omega
  | answer =>
    obtain ⟨client, server, results⟩ := c
    cases results with
    | nil => cases hstep
    | cons pos results =>
      obtain rfl := Option.some.inj hstep
      dsimp only at hle hresults
      rw [List.length_cons] at hresults
      cases hflight : client.inFlight with
      | nil => simp [hflight] at hresults
      | cons r rest =>
        obtain ⟨hanswered, hprefix⟩ := Uploader.answer_extends hflight pos
        rw [hflight, List.length_cons] at hresults
        refine ⟨⟨Uploader.answer_window h.window pos, ?_, ?_⟩, ?_⟩
        · -- what has been handled is the same first part of the requests
          obtain ⟨added, hadded⟩ := hprefix
          have hrequests : (client.answer pos).requests = client.requests ++ added := by
            simp [Uploader.requests, hanswered, ← hadded, hflight]
          have hlength : client.requests.length = client.answered.length + rest.length + 1 := by
            rw [Uploader.requests, List.length_append, hflight, List.length_cons, Nat.add_assoc]
          refine h.server.trans (congrArg (List.foldl _ _) ?_)
          simp only [handled, hrequests, hanswered, List.length_append, List.length_cons,
            List.length_nil, Nat.zero_add]
          rw [List.take_append_of_le_length (by omega), Nat.add_assoc, Nat.add_comm 1]
        · exact le_trans (Nat.le_of_succ_le_succ hresults) hprefix.length_le
        · have hless := Uploader.fuel_answer h.window (by simp [hflight]) pos
          rw [hflight, List.length_cons] at hle
          dsimp only at hless
          simp only [fuel, List.length_cons]
          omega

/-- **The run.** -/
theorem run_synchronized (turns : List Turn) (h : c.Synchronized flags old file)
    (hrun : run (step flags) c turns = some c') :
    c'.Synchronized flags old file ∧ turns.length + c'.fuel ≤ c.fuel := by
  induction turns generalizing c with
  | nil =>
    obtain rfl := Option.some.inj hrun
    exact ⟨h, (Nat.zero_add _).le⟩
  | cons turn turns ih =>
    obtain ⟨t, ht, hrun⟩ := run_cons.1 hrun
    obtain ⟨hsync, hless⟩ := step_synchronized h ht
    obtain ⟨hlast, hlength⟩ := ih hsync hrun
    refine ⟨hlast, ?_⟩
    rw [List.length_cons]
    omega

/-! ### The target file -/

/-- Until `idUploadCompleted` the server writes the chunks of the requests: the file is open, so
`UploadBackup` does nothing. -/
theorem foldl_take (flags : UInt32) (old : Option Content) (backup : Option ℤ)
    (chunks : List Content) (k : ℕ) :
    ((backup.toList.map .idUploadBackup ++ chunks.map .idUploading : List UploadRequest).take k).foldl
        (Server.OnSlowRequestArrive flags) (Server.Upload ⟨CSFileImpl.new, old⟩ flags).2 =
      (chunks.take (k - backup.toList.length)).foldl Server.Uploading
        (Server.Upload ⟨CSFileImpl.new, old⟩ flags).2 := by
  obtain ⟨s, hs, d, n, hopen⟩ := upload_content old flags []
  have hopen : s = _ := hopen
  have hbackup : ((backup.toList.map UploadRequest.idUploadBackup).take k).foldl
      (Server.OnSlowRequestArrive flags) s = s := by
    rw [hopen]
    cases backup <;> cases k <;> simp [Server.OnSlowRequestArrive, Server.UploadBackup]
  rw [hs, List.take_append, List.foldl_append, hbackup, List.length_map, ← List.map_take,
    List.foldl_map]
  rfl

/-- Wherever the server is among the requests, a first part of the file has been written; and behind
`idUploadCompleted` all of it. -/
theorem foldl_requestsOf (flags : UInt32) (old : Option Content) (backup : Option ℤ)
    (chunks : List Content) (sent : Bool) (k : ℕ) :
    let server := ((requestsOf backup chunks sent).take k).foldl
      (Server.OnSlowRequestArrive flags) (Server.Upload ⟨CSFileImpl.new, old⟩ flags).2
    (∃ n, server.file = some (begun old flags (chunks.flatten.take n))) ∧
      (.idUploadCompleted ∈ (requestsOf backup chunks sent).take k →
        server = ⟨CSFileImpl.new, some (begun old flags chunks.flatten)⟩) := by
  obtain ⟨s, hs, d, n, hwritten⟩ :=
    upload_content old flags (chunks.take (k - backup.toList.length))
  have hfront := foldl_take flags old backup chunks k
  rw [hs] at hfront
  dsimp only at hfront ⊢
  rw [requestsOf, List.take_append, List.foldl_append, hs, hfront, hwritten]
  obtain ⟨rest, hrest⟩ := List.take_prefix (k - backup.toList.length) chunks
  have hflat : chunks.flatten =
      (chunks.take (k - backup.toList.length)).flatten ++ rest.flatten := by
    rw [← List.flatten_append, hrest]
  have hfile : begun old flags (chunks.take (k - backup.toList.length)).flatten =
      begun old flags (chunks.flatten.take
        (chunks.take (k - backup.toList.length)).flatten.length) := by
    rw [hflat, List.take_left' rfl]
  cases hlast : (if sent then [UploadRequest.idUploadCompleted] else []).take
    (k - (backup.toList.map UploadRequest.idUploadBackup ++
      chunks.map UploadRequest.idUploading).length) with
  | nil =>
    refine ⟨⟨_, congrArg some hfile⟩, fun hmem ↦ ?_⟩
    rw [List.append_nil] at hmem
    simpa using List.mem_of_mem_take hmem
  | cons r rest =>
    -- all chunks have been written
    have hlen := congrArg List.length hlast
    simp only [List.length_take, List.length_append, List.length_map, List.length_cons] at hlen
    have hall : chunks.take (k - backup.toList.length) = chunks :=
      List.take_of_length_le (by omega)
    cases sent with
    | false => simp at hlast
    | true =>
      have hsub : r :: rest <+: [UploadRequest.idUploadCompleted] := hlast ▸ List.take_prefix _ _
      obtain ⟨rfl, hrest⟩ := List.cons_prefix_cons.1 hsub
      rw [List.prefix_nil.1 hrest]
      exact ⟨⟨_, congrArg some hfile⟩, fun _ ↦ by rw [hall]; rfl⟩

/-- **An upload arrives**, for every old file, flags and file, every way the sending buffer fills up,
and every order in which requests and results are handled: the run ends; at any time the target holds
what a first part of the file makes of it; and when there is nothing left to do, or the client is
done, it holds what the whole makes of it. -/
theorem upload_arrives (flags : UInt32) (a : SocketAnswers) (old : Option Content)
    (file : Content) :
    ∃ bound, ∀ turns c, run (step flags) (start flags a old file) turns = some c →
      turns.length ≤ bound ∧
      (∃ n, c.server.file = some (begun old flags (file.take n))) ∧
      ((∀ turn, c.step flags turn = none) ∨ c.client.context = none →
        c.server = ⟨CSFileImpl.new, some (begun old flags file)⟩) := by
  refine ⟨(start flags a old file).fuel, fun turns c hrun ↦ ?_⟩
  obtain ⟨hsync, hlength⟩ := run_synchronized turns (start_synchronized a) hrun
  obtain ⟨backup, chunks, hrequests, -, hfile⟩ := hsync.window.requests
  obtain ⟨⟨n, hn⟩, hcomplete⟩ := foldl_requestsOf flags old backup chunks c.client.Sent
    (c.client.answered.length + c.results.length)
  rw [← hrequests, ← handled, ← hsync.server] at hn hcomplete
  refine ⟨(Nat.le_add_right _ _).trans hlength, ⟨min n chunks.flatten.length, ?_⟩, fun hdone ↦ ?_⟩
  · rw [hn, ← hfile, List.take_append_of_le_length (Nat.min_le_right _ _), ← List.take_take,
      List.take_length]
  · have hflight : c.client.inFlight = [] := by
      rcases hdone with hstuck | hclosed
      · have hresults : c.results = [] := by
          cases hr : c.results with
          | nil => rfl
          | cons pos rest => simpa [step, hr] using hstuck .answer
        simpa [step, hresults] using hstuck .serve
      · exact hsync.window.closed hclosed
    have hsent : c.client.Sent = true := by
      by_contra hnot
      obtain ⟨chunk, hmem⟩ := hsync.window.waits (Bool.eq_false_iff.2 hnot)
      simp [hflight] at hmem
    rw [hsync.window.sent hsent, List.append_nil] at hfile
    rw [← hfile]
    refine hcomplete ?_
    have hall : c.handled = c.client.requests := by
      refine List.take_of_length_le ?_
      simp [Uploader.requests, hflight]
    rw [hall, hrequests, hsent]
    simp [requestsOf]

end Connection

/-! ### Downloads -/

open LocalFile

/-- What arrives of a download before its result. -/
def Downloaded.arrivals (d : Downloaded) : List Message :=
  d.started.toList.map (fun _ ↦ .idStartDownloading) ++ (payloads d.rounds).map .idDownloading

/-- A local file that has been opened without an error, and what chunks make of it. -/
theorem request_opened (old : Option Content) (flags : UInt32) :
    ∃ c d content, Local.request flags {} none old = ⟨some c, some content⟩ ∧ c.file = some d ∧
      c.HasError = false ∧ d.offset = 0 ∧
      ∀ chunks, (writeAll d content chunks).2 = begun old flags chunks.flatten := by
  have hnew (file : Option Descriptor) (initSize : ℤ) :
      CContext.HasError ⟨flags, file, initSize, 0, ""⟩ = false := by simp [CContext.HasError]
  cases old with
  | none =>
    refine ⟨⟨flags, some ⟨false, 0⟩, -1, 0, ""⟩, ⟨false, 0⟩, [], ?_, rfl, hnew _ _, rfl,
      fun chunks ↦ ?_⟩
    · simp [Local.request, CContext.OpenLocalWrite, CContext.new, hnew, openTarget_none]
    · rw [writeAll_offset rfl (Nat.zero_le _), overwrite_zero]
      simp [begun]
  | some before =>
    obtain ⟨d, content, hopen, happend, hoffset, hcontent⟩ := openTarget_some before flags
    refine ⟨⟨flags, some d, d.offset, 0, ""⟩, d, content, ?_, rfl, hnew _ _, hoffset,
      writeAll_merge happend (fun _ ↦ hoffset) hcontent⟩
    simp [Local.request, CContext.OpenLocalWrite, CContext.new, hnew, hopen]

theorem foldl_idDownloading (flags : UInt32) (initSize : ℤ) (c : CContext) (d : Descriptor)
    (content : Content) (chunks : List Content) :
    (chunks.map Message.idDownloading).foldl (receive flags initSize)
        ⟨some { c with file := some d }, some content⟩ =
      ⟨some { c with file := some (writeAll d content chunks).1 },
        some (writeAll d content chunks).2⟩ := by
  induction chunks generalizing d content with
  | nil => rfl
  | cons chunk chunks ih => exact ih _ _

/-- **A download arrives**, for every old local file, flags and file, and every way the system and
the socket of the server answer: with the result 0 the local file is what the chunks that were sent
make of it, and with another it is what `CloseFile` leaves; and unless the server has been disturbed,
the chunks are all of the file. -/
theorem download_arrives {a : DownloadAnswers} {localFile filePath : String} {flags : UInt32}
    {initSize : ℤ} {file : Content} {fuel : ℕ} {d : Downloaded} {res : ℤ} {errMsg : String}
    (hd : a.Download localFile filePath flags initSize file fuel = some d)
    (hresult : d.result = some (res, errMsg)) (old : Option Content) :
    (ended old flags { messages := d.arrivals, res, errMsg }).CloseFile.localFile =
        (if res = 0 ∧ errMsg = "" then some (begun old flags (payloads d.rounds).flatten)
        else old.map fun _ ↦ []) ∧
      (a.Quiet flags file → res = 0 → (payloads d.rounds).flatten = file) := by
  obtain ⟨c, fd, content, hrequest, hfile, hopened, hoffset, hwritten⟩ := request_opened old flags
  have hmessages : ended old flags { messages := d.arrivals, res, errMsg } =
      ⟨some { c with
        file := some (writeAll fd content (payloads d.rounds)).1
        ErrorCode := res
        ErrMsg := errMsg }, some (writeAll fd content (payloads d.rounds)).2⟩ := by
    have hstart : (d.started.toList.map fun _ ↦ Message.idStartDownloading).foldl
        (receive flags c.InitSize) ⟨some c, some content⟩ = ⟨some c, some content⟩ := by
      cases d.started with
      | none => rfl
      | some start =>
        have hsize : ¬ (if 0 < c.InitSize then c.InitSize else 0) < 0 := by
          split_ifs <;> omega
        simp [receive, Local.idStartDownloading, hfile, hoffset, hsize]
    have hc : c = { c with file := some fd } := by rw [← hfile]
    simp only [ended, hrequest, Local.HasError, Option.any_some, hopened, Bool.false_eq_true,
      if_false, Local.initSize, Option.map_some, Option.getD_some, Downloaded.arrivals,
      List.foldl_append, hstart]
    rw [hc, foldl_idDownloading]
    rfl
  refine ⟨?_, fun hquiet hzero ↦ ?_⟩
  · split_ifs with hok
    · rw [hmessages, ← hwritten]
      simp [Local.CloseFile, CContext.HasError, hok]
    · refine closeFile_failed old flags _ ?_
      rw [hmessages]
      rw [not_and_or] at hok
      simpa [Local.HasError, CContext.HasError] using hok
  · obtain ⟨d', hd', hiff⟩ := DownloadAnswers.download_returns a localFile filePath flags initSize file
    obtain rfl := DownloadAnswers.download_unique hd hd'
    exact ((hiff.2 hquiet).complete errMsg (by rw [hresult, hzero])).2

/-- A file of one byte. -/
theorem download_arrives_byte :
    (ended none 0
      { messages := Downloaded.arrivals ⟨some ⟨1, "a", "b", 0, -1⟩, [⟨[1], false, true⟩],
          some (0, "")⟩
        res := 0, errMsg := "" }).CloseFile.localFile = some [1] := by
  have hd : DownloadAnswers.Download { read := fun _ ↦ .upTo 0 } "a" "b" 0 (-1) [1] 2 =
      some ⟨some ⟨1, "a", "b", 0, -1⟩, [⟨[1], false, true⟩], some (0, "")⟩ := by
    decide +kernel
  exact (download_arrives hd rfl none).1

end SocketPro.File
