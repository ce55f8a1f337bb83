import SocketPro.Foundation.PosixFile

/-!
# Uploads that are replayed from the client queue

`Upload`, `UploadBackup`, `Uploading`, `UploadCompleted` and `CleanOF` of `sfileimpl.cpp`, in their
POSIX branches, on one target file. What only reports or locks is left out: the size the client
announces, error texts, and the advisory lock.

An upload dies after some of its chunks, because the server does, or because the connection does and
`OnReleaseSource` takes back what has been written. Then the client queue replays it: `UploadBackup`
with the flags and the initial size that `Upload` returned, all chunks, and `UploadCompleted`.

**What the replay leaves** (`replay_content`) is the expected file unless the server died and

* the flags ask to append, and something had been written: `UploadBackup` seeks to the initial size,
  but on a descriptor opened with `O_APPEND` the chunks go behind what is there;
* the flags ask for neither truncation nor appending, and the old file is longer than the upload:
  its end stays.
-/

namespace SocketPro.File

open Posix

/-- `FILE_OPEN_TRUNCACTED` of `ufile.h`. -/
def FILE_OPEN_TRUNCACTED : UInt32 := 1

/-- `FILE_OPEN_APPENDED`. -/
def FILE_OPEN_APPENDED : UInt32 := 2

/-- `FILE_OPEN_SHARE_READ`. -/
def FILE_OPEN_SHARE_READ : UInt32 := 4

/-- `FILE_OPEN_SHARE_WRITE`. -/
def FILE_OPEN_SHARE_WRITE : UInt32 := 8

/-- `STREAM_CHUNK_SIZE`. -/
def STREAM_CHUNK_SIZE : ℕ := 10240

/-- `(flags & flag) == flag`. -/
def has (flags flag : UInt32) : Bool := flags &&& flag == flag

/-- The fields of `CSFileImpl` that an upload depends on; `none` is the descriptor -1. -/
structure CSFileImpl where
  m_of : Option Descriptor
  m_oPos : ℕ
  InitSize : ℤ
deriving DecidableEq, Repr

/-- A new peer. -/
def CSFileImpl.new : CSFileImpl := ⟨none, 0, -1⟩

/-- A peer and the target file. -/
structure Server where
  peer : CSFileImpl
  file : Option Content
deriving DecidableEq, Repr

/-- The flags of the second `open`, for a file that exists. -/
def openMode (flags : UInt32) : OpenMode :=
  if has flags FILE_OPEN_TRUNCACTED then { O_CREAT := true, O_TRUNC := true }
  else if has flags FILE_OPEN_APPENDED then { O_CREAT := true, O_APPEND := true }
  else { O_CREAT := true }

/-- The two `open` calls of `Upload` and `UploadBackup`, and whether the file existed. -/
def openTarget (file : Option Content) (flags : UInt32) : Option (Descriptor × Content × Bool) :=
  match openFile file { O_CREAT := true, O_EXCL := true } with
  | some (d, content) => some (d, content, false)
  | none => (openFile file (openMode flags)).map fun (d, content) ↦ (d, content, true)

namespace Server

/-- `CleanOF`: the file as it was before the upload, or no file. -/
def CleanOF (s : Server) : Server where
  peer := CSFileImpl.new
  file :=
    match s.peer.m_of with
    | none => s.file
    | some _ =>
      if s.peer.InitSize = -1 then none
      else s.file.map fun content ↦ truncate content s.peer.InitSize.toNat

/-- `Upload`; it returns `initPos`. -/
def Upload (s : Server) (flags : UInt32) : ℤ × Server :=
  let s := s.CleanOF
  match openTarget s.file flags with
  | none => (-1, s)
  | some (d, content, false) => (-1, ⟨⟨some d, 0, -1⟩, some content⟩)
  | some (d, content, true) =>
    if has flags FILE_OPEN_APPENDED then
      let d := seekEnd d content
      ((d.offset : ℤ), ⟨⟨some d, 0, d.offset⟩, some content⟩)
    else (0, ⟨⟨some d, 0, 0⟩, some content⟩)

/-- `UploadBackup`. -/
def UploadBackup (s : Server) (flags : UInt32) (initSize : ℤ) : Server :=
  match s.peer.m_of with
  | some _ => s
  | none =>
    match openTarget s.file flags with
    | none => { s with peer := ⟨none, 0, -1⟩ }
    | some (d, content, false) => ⟨⟨some d, 0, -1⟩, some content⟩
    | some (d, content, true) =>
      let size := if initSize = -1 then 0 else initSize
      if has flags FILE_OPEN_APPENDED then
        let d := seekEnd d content
        -- On a descriptor with `O_APPEND` this has no effect on the writes to come.
        let d := if d.offset ≠ 0 ∧ size < d.offset then seekSet d size else d
        ⟨⟨some d, 0, initSize⟩, some content⟩
      else ⟨⟨some d, 0, initSize⟩, some content⟩

/-- `Uploading`. -/
def Uploading (s : Server) (chunk : List UInt8) : Server :=
  match s.peer.m_of, s.file with
  | some d, some content =>
    { peer := { s.peer with
        m_of := some (write d content chunk).1
        m_oPos := s.peer.m_oPos + chunk.length }
      file := some (write d content chunk).2 }
  | _, _ => s

/-- `UploadCompleted`. -/
def UploadCompleted (s : Server) : Server := { s with peer := CSFileImpl.new }

end Server

/-! ### Death and replay -/

/-- Who dies. -/
inductive Death
  /-- The server process: its file stays as it is. -/
  | server
  /-- The connection: `OnReleaseSource` cleans up. -/
  | connection
deriving DecidableEq, Repr

/-- The state that a new peer finds. -/
def die (s : Server) : Death → Server
  | .server => ⟨CSFileImpl.new, s.file⟩
  | .connection => s.CleanOF

/-- An upload that dies after some chunks, and its replay. The result is the initial size that the
client had recorded, and the file at the end. -/
def replay (old : Option Content) (flags : UInt32) (written chunks : List (List UInt8))
    (death : Death) : ℤ × Option Content :=
  let (initSize, s) := Server.Upload ⟨CSFileImpl.new, old⟩ flags
  let s := die (written.foldl Server.Uploading s) death
  let s := (chunks.foldl Server.Uploading (s.UploadBackup flags initSize)).UploadCompleted
  (initSize, s.file)

/-- What the file is to be: for appending, the first bytes of the old one and the data; else the
data. -/
def expected (old : Option Content) (flags : UInt32) (initSize : ℤ) (data : Content) : Content :=
  if has flags FILE_OPEN_APPENDED then (old.getD []).take (max initSize 0).toNat ++ data else data

/-! ### Chunks -/

theorem foldl_uploading (peer : CSFileImpl) (d : Descriptor) (content : Content)
    (chunks : List (List UInt8)) :
    ∃ n, chunks.foldl Server.Uploading ⟨{ peer with m_of := some d }, some content⟩ =
      ⟨⟨some (writeAll d content chunks).1, n, peer.InitSize⟩,
        some (writeAll d content chunks).2⟩ := by
  induction chunks generalizing peer d content with
  | nil => exact ⟨peer.m_oPos, rfl⟩
  | cons chunk chunks ih =>
    exact ih { peer with m_oPos := peer.m_oPos + chunk.length } _ _

/-- What a series of chunks makes of a content, by the flags of an upload. -/
def merge (flags : UInt32) (content data : Content) : Content :=
  if has flags FILE_OPEN_TRUNCACTED then data
  else if has flags FILE_OPEN_APPENDED then content ++ data
  else data ++ content.drop data.length

theorem overwrite_zero (content data : Content) :
    Block.overwrite 0 data content = data ++ content.drop data.length := by
  simp [Block.overwrite]

/-- The descriptor and the content after the two `open` calls on a file that exists, and what chunks
make of them. `k` is where the descriptor is sought to for appending. -/
theorem openTarget_some (content : Content) (flags : UInt32) :
    ∃ d c, openTarget (some content) flags = some (d, c, true) ∧
      (d.append = (!has flags FILE_OPEN_TRUNCACTED && has flags FILE_OPEN_APPENDED)) ∧
      d.offset = 0 ∧ c = if has flags FILE_OPEN_TRUNCACTED then [] else content := by
  cases ht : has flags FILE_OPEN_TRUNCACTED with
  | true => exact ⟨⟨false, 0⟩, [], by simp [openTarget, openFile, openMode, ht], rfl, rfl, rfl⟩
  | false =>
    cases ha : has flags FILE_OPEN_APPENDED with
    | true =>
      exact ⟨⟨true, 0⟩, content, by simp [openTarget, openFile, openMode, ht, ha], rfl, rfl, rfl⟩
    | false =>
      exact ⟨⟨false, 0⟩, content, by simp [openTarget, openFile, openMode, ht, ha], rfl, rfl, rfl⟩

theorem openTarget_none (flags : UInt32) :
    openTarget none flags = some (⟨false, 0⟩, [], false) := rfl

/-- Chunks through a descriptor that has been opened on a file that exists. Only one opened with
`O_APPEND` may have been sought away from the beginning. -/
theorem writeAll_merge {d : Descriptor} {content c : Content} {flags : UInt32}
    (happ : d.append = (!has flags FILE_OPEN_TRUNCACTED && has flags FILE_OPEN_APPENDED))
    (hoff : d.append = false → d.offset = 0)
    (hc : c = if has flags FILE_OPEN_TRUNCACTED then [] else content)
    (chunks : List (List UInt8)) :
    (writeAll d c chunks).2 = merge flags content chunks.flatten := by
  unfold merge
  cases ht : has flags FILE_OPEN_TRUNCACTED with
  | true =>
    rw [ht] at happ hc
    rw [writeAll_offset happ (by rw [hoff happ]; exact Nat.zero_le _), hoff happ, hc]
    simp [overwrite_zero]
  | false =>
    cases ha : has flags FILE_OPEN_APPENDED with
    | true =>
      rw [ht, ha] at happ
      rw [ht] at hc
      rw [writeAll_append happ, hc]
      rfl
    | false =>
      rw [ht, ha] at happ
      rw [ht] at hc
      rw [writeAll_offset happ (by rw [hoff happ]; exact Nat.zero_le _), hoff happ, hc,
        overwrite_zero]
      rfl

/-! ### The two openings -/

/-- The initial size that `Upload` returns. -/
def initSize (old : Option Content) (flags : UInt32) : ℤ :=
  match old with
  | none => -1
  | some content =>
    if !has flags FILE_OPEN_TRUNCACTED && has flags FILE_OPEN_APPENDED then content.length else 0

/-- The file after an upload with the given data has begun. -/
def begun (old : Option Content) (flags : UInt32) (data : Content) : Content :=
  match old with
  | none => data
  | some content => merge flags content data

theorem upload_content (old : Option Content) (flags : UInt32) (chunks : List (List UInt8)) :
    ∃ s, Server.Upload ⟨CSFileImpl.new, old⟩ flags = (initSize old flags, s) ∧
      ∃ d n, chunks.foldl Server.Uploading s =
        ⟨⟨some d, n, initSize old flags⟩, some (begun old flags chunks.flatten)⟩ := by
  cases old with
  | none =>
    refine ⟨⟨⟨some ⟨false, 0⟩, 0, -1⟩, some []⟩, rfl, ?_⟩
    obtain ⟨n, hn⟩ := foldl_uploading ⟨none, 0, -1⟩ ⟨false, 0⟩ [] chunks
    refine ⟨(writeAll ⟨false, 0⟩ [] chunks).1, n, hn.trans ?_⟩
    rw [writeAll_offset rfl (Nat.zero_le _), overwrite_zero, List.drop_nil, List.append_nil]
    rfl
  | some content =>
    obtain ⟨d, c, hopen, happ, hoff, hc⟩ := openTarget_some content flags
    cases ha : has flags FILE_OPEN_APPENDED with
    | true =>
      have hsize : ((seekEnd d c).offset : ℤ) = initSize (some content) flags := by
        cases ht : has flags FILE_OPEN_TRUNCACTED <;> simp [seekEnd, initSize, hc, ht, ha]
      refine ⟨⟨⟨some (seekEnd d c), 0, (seekEnd d c).offset⟩, some c⟩, ?_, ?_⟩
      · rw [← hsize]
        simp only [Server.Upload, Server.CleanOF, CSFileImpl.new, hopen, ha, if_true]
      · have happ' : (seekEnd d c).append =
            (!has flags FILE_OPEN_TRUNCACTED && has flags FILE_OPEN_APPENDED) := happ
        obtain ⟨n, hn⟩ := foldl_uploading ⟨none, 0, (seekEnd d c).offset⟩ (seekEnd d c) c chunks
        refine ⟨(writeAll (seekEnd d c) c chunks).1, n, hn.trans ?_⟩
        rw [writeAll_merge happ' (fun hfalse ↦ ?_) hc, hsize]
        · rfl
        · -- Without `O_APPEND` the file has been truncated.
          have ht : has flags FILE_OPEN_TRUNCACTED = true := by
            have hnot := happ'.symm.trans hfalse
            rwa [ha, Bool.and_true, Bool.not_eq_false'] at hnot
          simp [seekEnd, hc, ht]
    | false =>
      have hsize : initSize (some content) flags = 0 := by simp [initSize, ha]
      refine ⟨⟨⟨some d, 0, 0⟩, some c⟩, ?_, ?_⟩
      · rw [hsize]
        simp only [Server.Upload, Server.CleanOF, CSFileImpl.new, hopen, ha, Bool.false_eq_true,
          if_false]
      · obtain ⟨n, hn⟩ := foldl_uploading ⟨none, 0, 0⟩ d c chunks
        refine ⟨(writeAll d c chunks).1, n, hn.trans ?_⟩
        rw [writeAll_merge happ (fun _ ↦ hoff) hc, hsize]
        rfl

theorem backup_content (file : Option Content) (flags : UInt32) (size : ℤ)
    (chunks : List (List UInt8)) :
    (chunks.foldl Server.Uploading
      (Server.UploadBackup ⟨CSFileImpl.new, file⟩ flags size)).UploadCompleted.file =
        some (begun file flags chunks.flatten) := by
  cases file with
  | none =>
    obtain ⟨n, hn⟩ := foldl_uploading ⟨none, 0, -1⟩ ⟨false, 0⟩ [] chunks
    have hbackup : Server.UploadBackup ⟨CSFileImpl.new, none⟩ flags size =
        ⟨⟨some ⟨false, 0⟩, 0, -1⟩, some []⟩ := rfl
    rw [hbackup, hn, Server.UploadCompleted, writeAll_offset rfl (Nat.zero_le _), overwrite_zero,
      List.drop_nil, List.append_nil]
    rfl
  | some content =>
    obtain ⟨d, c, hopen, happ, hoff, hc⟩ := openTarget_some content flags
    -- Wherever the descriptor is sought to, one without `O_APPEND` is at the beginning.
    obtain ⟨d', happ', hoff', hbackup⟩ : ∃ d', d'.append = d.append ∧
        (d'.append = false → d'.offset = 0) ∧
        Server.UploadBackup ⟨CSFileImpl.new, some content⟩ flags size =
          ⟨⟨some d', 0, size⟩, some c⟩ := by
      cases ha : has flags FILE_OPEN_APPENDED with
      | true =>
        refine ⟨if (seekEnd d c).offset ≠ 0 ∧
          (if size = -1 then 0 else size) < (seekEnd d c).offset then
            seekSet (seekEnd d c) (if size = -1 then 0 else size) else seekEnd d c, ?_, ?_, ?_⟩
        · simp only [seekSet, seekEnd]
          split_ifs <;> rfl
        · intro hfalse
          have happ' : d.append = false := by
            simp only [seekSet, seekEnd] at hfalse
            split_ifs at hfalse <;> exact hfalse
          have ht : has flags FILE_OPEN_TRUNCACTED = true := by
            have happ'' := happ.symm.trans happ'
            rwa [ha, Bool.and_true, Bool.not_eq_false'] at happ''
          simp [seekEnd, hc, ht]
        · simp only [Server.UploadBackup, CSFileImpl.new, hopen, ha, if_true]
      | false =>
        refine ⟨d, rfl, fun _ ↦ hoff, ?_⟩
        simp only [Server.UploadBackup, CSFileImpl.new, hopen, ha, Bool.false_eq_true, if_false]
    obtain ⟨n, hn⟩ := foldl_uploading ⟨none, 0, size⟩ d' c chunks
    rw [hbackup, hn, Server.UploadCompleted, writeAll_merge (happ'.trans happ) hoff' hc]
    rfl

/-! ### The replay -/

/-- The file that a new peer finds. -/
def survived (old : Option Content) (flags : UInt32) (data : Content) : Death → Option Content
  | .server => some (begun old flags data)
  | .connection => old.map fun content ↦
      if !has flags FILE_OPEN_TRUNCACTED && has flags FILE_OPEN_APPENDED then content else []

theorem die_survived (old : Option Content) (flags : UInt32) (data : Content) (d : Descriptor)
    (n : ℕ) (death : Death) :
    die ⟨⟨some d, n, initSize old flags⟩, some (begun old flags data)⟩ death =
      ⟨CSFileImpl.new, survived old flags data death⟩ := by
  cases death with
  | server => rfl
  | connection =>
    cases old with
    | none => rfl
    | some content =>
      have hne : initSize (some content) flags ≠ -1 := by
        unfold initSize
        dsimp only
        split_ifs <;> omega
      simp only [die, Server.CleanOF, if_neg hne]
      congr 1
      simp only [survived, begun, Option.map_some, initSize, merge]
      cases ht : has flags FILE_OPEN_TRUNCACTED <;> cases ha : has flags FILE_OPEN_APPENDED <;>
        simp [truncate]

/-- **What the replay leaves.** -/
theorem replay_content (old : Option Content) (flags : UInt32) (written chunks : List (List UInt8))
    (death : Death) :
    replay old flags written chunks death =
      (initSize old flags,
        some (begun (survived old flags written.flatten death) flags chunks.flatten)) := by
  obtain ⟨s, hs, d, n, hwritten⟩ := upload_content old flags written
  unfold replay
  rw [hs]
  dsimp only
  rw [hwritten, die_survived, backup_content]

/-- The condition: the connection has died and not the server, or the flags ask for truncation;
else, for appending, nothing had been written, and otherwise the old file is no longer than the data. -/
def Replayable (old : Option Content) (flags : UInt32) (written data : Content) (death : Death) :
    Prop :=
  death = .connection ∨ has flags FILE_OPEN_TRUNCACTED = true ∨
    if has flags FILE_OPEN_APPENDED then written = [] else (old.getD []).length ≤ data.length

/-- After the death of the connection, the old file is there again as far as it counts. -/
theorem connection_exact (old : Option Content) (flags : UInt32) (data data' : Content) :
    begun (survived old flags data' .connection) flags data =
      expected old flags (initSize old flags) data := by
  cases old with
  | none => cases ha : has flags FILE_OPEN_APPENDED <;> simp [survived, begun, expected, ha]
  | some content =>
    cases ht : has flags FILE_OPEN_TRUNCACTED <;> cases ha : has flags FILE_OPEN_APPENDED <;>
      simp [survived, begun, expected, merge, initSize, ht, ha]

/-- After the death of the server, with what had been written still there. -/
theorem server_exact_iff (old : Option Content) (flags : UInt32) {data data' : Content}
    (hpart : data'.length ≤ data.length) :
    begun (survived old flags data' .server) flags data =
        expected old flags (initSize old flags) data ↔
      has flags FILE_OPEN_TRUNCACTED = true ∨
        if has flags FILE_OPEN_APPENDED then data' = []
        else (old.getD []).length ≤ data.length := by
  cases ht : has flags FILE_OPEN_TRUNCACTED with
  | true =>
    cases old <;> cases ha : has flags FILE_OPEN_APPENDED <;>
      simp [survived, begun, expected, merge, initSize, ht, ha]
  | false =>
    cases ha : has flags FILE_OPEN_APPENDED with
    | true =>
      -- The data are appended to what had been written before.
      cases old <;> simp [survived, begun, expected, merge, initSize, ht, ha]
    | false =>
      cases old with
      | none => simp [survived, begun, expected, merge, ht, ha, hpart]
      | some content =>
        have hdrop : (data' ++ content.drop data'.length).drop data.length = [] ↔
            content.length ≤ data.length := by
          rw [List.drop_eq_nil_iff, List.length_append, List.length_drop]
          omega
        simpa [survived, begun, expected, merge, ht, ha] using hdrop

/-- **When the replay is exact**: for every old file, flags, data in chunks and point of death. -/
theorem replay_exact_iff (old : Option Content) (flags : UInt32) (chunks : List (List UInt8))
    (n : ℕ) (death : Death) :
    (replay old flags (chunks.take n) chunks death).2 =
        some (expected old flags (replay old flags (chunks.take n) chunks death).1
          chunks.flatten) ↔
      Replayable old flags (chunks.take n).flatten chunks.flatten death := by
  rw [replay_content, Option.some_inj]
  cases death with
  | connection => exact iff_of_true (connection_exact _ _ _ _) (.inl rfl)
  | server =>
    have hpart : (chunks.take n).flatten.length ≤ chunks.flatten.length := by
      have hsplit : chunks.flatten = (chunks.take n).flatten ++ (chunks.drop n).flatten := by
        rw [← List.flatten_append, List.take_append_drop]
      rw [hsplit, List.length_append]
      exact Nat.le_add_right _ _
    rw [server_exact_iff old flags hpart]
    constructor
    · exact .inr
    · rintro (hdeath | hcond)
      · cases hdeath
      · exact hcond

/-- Two bytes appended to a file of one byte, where the server dies between them. -/
theorem not_replay_exact :
    (replay (some [1]) FILE_OPEN_APPENDED ([[2], [3]].take 1) [[2], [3]] .server).2 ≠
      some (expected (some [1]) FILE_OPEN_APPENDED
        (replay (some [1]) FILE_OPEN_APPENDED ([[2], [3]].take 1) [[2], [3]] .server).1
        [2, 3]) := by
  decide +kernel

end SocketPro.File
