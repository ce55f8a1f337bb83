import SocketPro.Foundation.Block
import Mathlib.Data.UInt
import Mathlib.Data.List.Flatten

/-!
# A file as POSIX sees it

One file of a file system, absent or with a content, and descriptors open for writing on it: `open`
with its flags, `lseek`, `write`, `ftruncate` and `remove`, none of which fails for want of room or
permission. A `write` takes the offset of its descriptor, or the end of the file when the descriptor
was opened with `O_APPEND`, **whatever has been sought before**.

`writeAll_append` and `writeAll_offset` say what a series of writes leaves: it does not matter where
the bytes are cut.
-/

namespace Posix

/-- The content of a file. -/
abbrev Content := List UInt8

/-- The flags of `open` with `O_WRONLY`. -/
structure OpenMode where
  O_CREAT : Bool := false
  O_EXCL : Bool := false
  O_TRUNC : Bool := false
  O_APPEND : Bool := false
deriving DecidableEq, Repr

/-- An open file: where the next write goes, unless it goes to the end. -/
structure Descriptor where
  append : Bool
  offset : ℕ
deriving DecidableEq, Repr

/-- `open`: a descriptor and the content that it leaves; it fails for a file that is absent, and for
one that is not when `O_EXCL` says so. -/
def openFile (file : Option Content) (mode : OpenMode) : Option (Descriptor × Content) :=
  match file with
  | none => if mode.O_CREAT then some (⟨mode.O_APPEND, 0⟩, []) else none
  | some content =>
    if mode.O_CREAT ∧ mode.O_EXCL then none
    else some (⟨mode.O_APPEND, 0⟩, if mode.O_TRUNC then [] else content)

/-- `lseek(fd, 0, SEEK_END)`; the new offset is what it returns. -/
def seekEnd (d : Descriptor) (content : Content) : Descriptor := { d with offset := content.length }

/-- `lseek(fd, offset, SEEK_SET)`, which fails for a negative offset. -/
def seekSet (d : Descriptor) (offset : ℤ) : Descriptor :=
  if offset < 0 then d else { d with offset := offset.toNat }

/-- `write`. What lies between the end of the file and the offset reads as zeros. -/
def write (d : Descriptor) (content : Content) (bytes : List UInt8) : Descriptor × Content :=
  if bytes = [] then (d, content)
  else
    let position := bif d.append then content.length else d.offset
    ({ d with offset := position + bytes.length },
      Block.overwrite position bytes (content ++ List.replicate (position - content.length) 0))

/-- `ftruncate`. -/
def truncate (content : Content) (size : ℕ) : Content :=
  content.take size ++ List.replicate (size - content.length) 0

/-- Several writes. -/
def writeAll (d : Descriptor) (content : Content) : List (List UInt8) → Descriptor × Content
  | [] => (d, content)
  | bytes :: chunks =>
    writeAll (write d content bytes).1 (write d content bytes).2 chunks

variable {d : Descriptor} {content : Content}

theorem write_append (h : d.append) (content bytes : List UInt8) :
    (write d content bytes).1.append ∧ (write d content bytes).2 = content ++ bytes := by
  unfold write
  split_ifs with hnil
  · exact ⟨h, by rw [hnil, List.append_nil]⟩
  · refine ⟨h, ?_⟩
    simp [h, Block.overwrite]

/-- **Writes with `O_APPEND`** go to the end. -/
theorem writeAll_append (h : d.append) (chunks : List (List UInt8)) :
    (writeAll d content chunks).2 = content ++ chunks.flatten := by
  induction chunks generalizing d content with
  | nil => exact (List.append_nil content).symm
  | cons bytes chunks ih =>
    obtain ⟨happ, hcontent⟩ := write_append h content bytes
    rw [writeAll, ih happ, hcontent, List.flatten_cons, List.append_assoc]

theorem write_offset (h : d.append = false) (hle : d.offset ≤ content.length)
    (bytes : List UInt8) :
    (write d content bytes).1 = ⟨false, d.offset + bytes.length⟩ ∧
      (write d content bytes).2 = Block.overwrite d.offset bytes content := by
  obtain ⟨append, offset⟩ := d
  obtain rfl : append = false := h
  have hle' : offset ≤ content.length := hle
  unfold write
  split_ifs with hnil
  · subst hnil
    simp [Block.overwrite]
  · simp [Nat.sub_eq_zero_of_le hle']

/-- Two pieces written one behind the other are one piece. -/
theorem overwrite_overwrite {p : ℕ} {xs ys : List UInt8} (h : p ≤ content.length) :
    Block.overwrite (p + xs.length) ys (Block.overwrite p xs content) =
      Block.overwrite p (xs ++ ys) content := by
  have hp : (content.take p ++ xs).length = p + xs.length := by
    rw [List.length_append, List.length_take, Nat.min_eq_left h]
  have hdrop : (content.take p ++ xs).drop (p + xs.length + ys.length) = [] :=
    List.drop_of_length_le (by omega)
  have hindex : p + xs.length + (p + xs.length + ys.length - (p + xs.length)) =
      p + (xs.length + ys.length) := by omega
  calc
    Block.overwrite (p + xs.length) ys (Block.overwrite p xs content)
        = (content.take p ++ xs) ++ ys ++
            (content.take p ++ xs ++ content.drop (p + xs.length)).drop
              (p + xs.length + ys.length) := by
          rw [Block.overwrite, Block.overwrite, ← hp, List.take_left]
    _ = Block.overwrite p (xs ++ ys) content := by
      rw [List.drop_append, hdrop, hp, List.nil_append, List.drop_drop, hindex, Block.overwrite,
        List.length_append, List.append_assoc (content.take p)]

/-- **Writes from an offset on** replace what has been there. -/
theorem writeAll_offset (h : d.append = false) (hle : d.offset ≤ content.length)
    (chunks : List (List UInt8)) :
    (writeAll d content chunks).2 = Block.overwrite d.offset chunks.flatten content := by
  induction chunks generalizing d content with
  | nil => simp [writeAll, Block.overwrite]
  | cons bytes chunks ih =>
    obtain ⟨hd, hcontent⟩ := write_offset h hle bytes
    have hlen : d.offset + bytes.length ≤ (Block.overwrite d.offset bytes content).length := by
      simp only [Block.overwrite, List.length_append, List.length_take, List.length_drop]
      omega
    rw [writeAll, hd, hcontent, ih rfl hlen, overwrite_overwrite hle, List.flatten_cons]

end Posix
