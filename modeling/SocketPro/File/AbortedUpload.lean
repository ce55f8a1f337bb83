import SocketPro.File.UploadReplay

/-!
# Uploads that are dropped

Every way in which `sfileimpl.cpp` drops an upload that has been opened leads to `CleanOF`: the
client cancels (`OnBaseRequestArrive`), the connection is gone (`OnReleaseSource`), or another
`Download` or `Upload` begins. A lock that fails at the end of `Upload` is reported and leaves the
file open, for one of these to come.

`CleanOF` cuts the file at the initial size. `Upload` sets that to the size of the file when the
flags ask to append, and to 0 otherwise, as for a file that has been truncated; but **a file that is
to be overwritten from its beginning has not been truncated**, and loses its content without one
byte having been written.
-/

namespace SocketPro.File

open Posix

/-- `tagBaseRequestID::idCancel` of `ucomm.h`. -/
def idCancel : UInt16 := 5

namespace Server

/-- `OnBaseRequestArrive`. -/
def OnBaseRequestArrive (s : Server) (reqId : UInt16) : Server :=
  if reqId = idCancel then s.CleanOF else s

/-- `OnReleaseSource`. -/
def OnReleaseSource (s : Server) : Server := s.CleanOF

/-- What `Download` does to the file of an upload; the rest of it only reads. -/
def Download (s : Server) : Server := s.CleanOF

/-- `Upload` with its lock, of which `fcntl` answers with an error, 0 for none. It returns `res` and
`initPos`. -/
def LockedUpload (s : Server) (flags : UInt32) (lockErrno : ℤ) : ℤ × ℤ × Server :=
  let (initPos, s) := s.Upload flags
  (if has flags FILE_OPEN_SHARE_WRITE then 0 else lockErrno, initPos, s)

end Server

/-- What drops an upload. -/
inductive Drop
  | cancel
  | disconnect
  | download
  /-- An upload of another file. -/
  | upload
deriving DecidableEq, Repr

/-- The file of the upload that is dropped. -/
def Server.drop (s : Server) : Drop → Server
  | .cancel => s.OnBaseRequestArrive idCancel
  | .disconnect => s.OnReleaseSource
  | .download => s.Download
  | .upload => s.CleanOF

/-- Every drop is `CleanOF`. -/
theorem Server.drop_eq_cleanOF (s : Server) (drop : Drop) : s.drop drop = s.CleanOF := by
  cases drop with
  | cancel => rw [Server.drop, Server.OnBaseRequestArrive, if_pos rfl]
  | disconnect | download | upload => rfl

/-- An upload by any peer, whether or not its lock is granted, that is dropped after some chunks. -/
def droppedUpload (s : Server) (flags : UInt32) (lockErrno : ℤ) (chunks : List (List UInt8))
    (drop : Drop) : Server :=
  (chunks.foldl Server.Uploading (s.LockedUpload flags lockErrno).2.2).drop drop

/-- `Upload` begins as a new peer, on the file that `CleanOF` leaves. -/
theorem Server.upload_cleanOF (s : Server) (flags : UInt32) :
    s.Upload flags = Server.Upload ⟨CSFileImpl.new, s.CleanOF.file⟩ flags := rfl

/-- **What a dropped upload leaves.** -/
theorem droppedUpload_file (s : Server) (flags : UInt32) (lockErrno : ℤ)
    (chunks : List (List UInt8)) (drop : Drop) :
    (droppedUpload s flags lockErrno chunks drop).file =
      survived s.CleanOF.file flags chunks.flatten .connection := by
  obtain ⟨t, ht, d, n, hchunks⟩ := upload_content s.CleanOF.file flags chunks
  have hupload : (s.LockedUpload flags lockErrno).2.2 = t := by
    rw [Server.LockedUpload, Server.upload_cleanOF, ht]
  have hdie := die_survived s.CleanOF.file flags chunks.flatten d n .connection
  rw [droppedUpload, Server.drop_eq_cleanOF, hupload, hchunks]
  exact congrArg Server.file hdie

/-- **When a dropped upload keeps the file**, for every existing file, flags without truncation,
lock and drop, before the first chunk or after any number of them: when the flags ask to append, or
the file was empty. -/
theorem droppedUpload_keeps_iff (s : Server) {old : Content} (hold : s.CleanOF.file = some old)
    {flags : UInt32} (hflags : has flags FILE_OPEN_TRUNCACTED = false) (lockErrno : ℤ)
    (chunks : List (List UInt8)) (drop : Drop) :
    (droppedUpload s flags lockErrno chunks drop).file = some old ↔
      has flags FILE_OPEN_APPENDED = true ∨ old = [] := by
  rw [droppedUpload_file, hold]
  cases happ : has flags FILE_OPEN_APPENDED <;> simp [survived, hflags, happ, eq_comm]

/-- Two bytes to be appended to a file of one byte, cancelled between them. -/
theorem droppedUpload_keeps_appended :
    (droppedUpload ⟨CSFileImpl.new, some [7]⟩ FILE_OPEN_APPENDED 0 [[1]] .cancel).file =
      some [7] :=
  (droppedUpload_keeps_iff ⟨CSFileImpl.new, some [7]⟩ rfl (by decide) 0 [[1]] .cancel).2
    (.inl (by decide))

/-- A file of one byte to be overwritten, cancelled before the first chunk. -/
theorem not_droppedUpload_keeps :
    (droppedUpload ⟨CSFileImpl.new, some [7]⟩ 0 0 [] .cancel).file ≠ some [7] := by
  decide +kernel

end SocketPro.File
