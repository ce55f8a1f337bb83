import SocketPro.Foundation.Run
import SocketPro.Go.SliceQueue

/-!
# Rows in the Go database handler

`CDBHandler.requestProcessed` of `gdb/dbhandler.go` for the frames that carry rows, behind
`requestprocessed_go`, which copies each frame into the buffer of the handler first. Both the buffer
and `m_blob` are used again for the next frame; a new array is made only when the old one is too
small.

A callback is recorded with what it is given: the cells of `m_vData` have the values they show when
the callback is called. Whether a callback is there is all that is known of it.
-/

namespace SocketPro.Go.Slices

open Bytes Machine CUQueue

/-- The results that carry rows. -/
inductive RowReqId
  | RowsetHeader
  | BeginRows
  | Transferring
  | StartBLOB
  | Chunk
  | EndBLOB
  | EndRows
deriving DecidableEq, Repr

/-- The bytes of a result; their number is a `uint32`. -/
abbrev Body := { bytes : List UInt8 // bytes.length < 2 ^ 32 }

/-- One result with its bytes. -/
structure Frame where
  reqId : RowReqId
  body : Body

/-- A length from here on stands for one that is not known in advance. -/
abbrev BLOB_LENGTH_NOT_AVAILABLE : ℕ := 0xffffffe0

/-! ### Column descriptions -/

/-- `CDBColumnInfo` of `gdefines.go`. -/
structure CDBColumnInfo where
  DBPath : GoString
  TablePath : GoString
  DisplayName : GoString
  OriginalName : GoString
  DeclaredType : GoString
  Collation : GoString
  ColumnSize : BitVec 32
  Flags : BitVec 32
  DataType : BitVec 16
  Precision : BitVec 8
  Scale : BitVec 8
deriving DecidableEq, Repr

/-- `*buffer.LoadString()`: there is nothing behind a nil pointer. -/
def loadText : Reader GoString := do
  let s ← LoadString
  match s with
  | some s => pure s
  | none => fun _ ↦ .fault

/-- `CDBColumnInfo.LoadFrom`. -/
def CDBColumnInfo.LoadFrom : Reader CDBColumnInfo := do
  let dbPath ← loadText
  let tablePath ← loadText
  let displayName ← loadText
  let originalName ← loadText
  let declaredType ← loadText
  let collation ← loadText
  let columnSize ← loadBits 4
  let flags ← loadBits 4
  let dataType ← loadBits 2
  let precision ← loadBits 1
  let scale ← loadBits 1
  pure ⟨dbPath, tablePath, displayName, originalName, declaredType, collation, columnSize, flags,
    dataType, precision, scale⟩

/-- `CDBColumnInfoArray.LoadFrom`. -/
def loadColumnInfoArray : Reader (List CDBColumnInfo) := loadLoop CDBColumnInfo.LoadFrom

/-- `CDBColumnInfo.SaveTo`. -/
def CDBColumnInfo.SaveTo (info : CDBColumnInfo) : List UInt8 :=
  SaveString (some info.DBPath) ++ (SaveString (some info.TablePath) ++
    (SaveString (some info.DisplayName) ++ (SaveString (some info.OriginalName) ++
      (SaveString (some info.DeclaredType) ++ (SaveString (some info.Collation) ++
        (saveBits 4 info.ColumnSize ++ (saveBits 4 info.Flags ++ (saveBits 2 info.DataType ++
          (saveBits 1 info.Precision ++ saveBits 1 info.Scale)))))))))

/-- What the reader makes of a description: its texts in 16-bit units and back. -/
def CDBColumnInfo.reread (info : CDBColumnInfo) : CDBColumnInfo :=
  { info with
    DBPath := Go.reread info.DBPath
    TablePath := Go.reread info.TablePath
    DisplayName := Go.reread info.DisplayName
    OriginalName := Go.reread info.OriginalName
    DeclaredType := Go.reread info.DeclaredType
    Collation := Go.reread info.Collation }

/-- `CDBColumnInfoArray.SaveTo`. -/
def saveColumnInfoArray (cols : List CDBColumnInfo) : List UInt8 :=
  saveRange CDBColumnInfo.SaveTo cols

theorem loadText_decodes {s : GoString} (h : (SaveString (some s)).length < LIMIT) :
    Decodes LIMIT loadText (SaveString (some s)) (Go.reread s) := by
  have hread : Decodes LIMIT loadText (SaveString (some s) ++ []) (Go.reread s) := by
    refine (LoadString_decodes h).bind ?_
    exact Decodes.pure _
  rwa [List.append_nil] at hread

theorem CDBColumnInfo.loadFrom_decodes (info : CDBColumnInfo) (h : info.SaveTo.length < LIMIT) :
    Decodes LIMIT CDBColumnInfo.LoadFrom info.SaveTo info.reread := by
  simp only [CDBColumnInfo.SaveTo, List.length_append] at h
  refine (loadText_decodes (by omega)).bind ?_
  refine (loadText_decodes (by omega)).bind ?_
  refine (loadText_decodes (by omega)).bind ?_
  refine (loadText_decodes (by omega)).bind ?_
  refine (loadText_decodes (by omega)).bind ?_
  refine (loadText_decodes (by omega)).bind ?_
  refine (loadBits_decodes 4 info.ColumnSize).bind ?_
  refine (loadBits_decodes 4 info.Flags).bind ?_
  refine (loadBits_decodes 2 info.DataType).bind ?_
  refine (loadBits_decodes 1 info.Precision).bind ?_
  exact (loadBits_decodes 1 info.Scale).map _

/-- Descriptions that were written are read. -/
theorem loadColumnInfoArray_decodes {cols : List CDBColumnInfo}
    (h : (saveColumnInfoArray cols).length < LIMIT) :
    Decodes LIMIT loadColumnInfoArray (saveColumnInfoArray cols)
      (cols.map CDBColumnInfo.reread) := by
  refine loadRange_decodes (fun info ↦ ?_) h fun info _ hinfo ↦ info.loadFrom_decodes hinfo
  rw [CDBColumnInfo.SaveTo, List.length_append]
  exact Nat.lt_of_lt_of_le (length_SaveString_pos _) (Nat.le_add_right _ _)

/-! ### The handler -/

/-- Which callbacks of a `cRowsetHandler` are not nil. -/
structure cRowsetHandler where
  rh : Bool
  row : Bool
deriving DecidableEq, Repr

/-- What a callback is called with. -/
inductive Call
  /-- `DRowsetHeader`. -/
  | header (index : ℕ)
  /-- `DRows`. -/
  | rows (index : ℕ) (proc : Bool) (vData : List Value)

/-- The handler with its buffer and the arrays these refer to. -/
structure CDBHandler where
  arrays : Arrays
  buffer : CUQueue
  m_blob : CUQueue
  m_indexRowset : ℕ
  m_mapRowset : List (ℕ × cRowsetHandler)
  m_vColInfo : List CDBColumnInfo
  m_vData : List Object
  calls : List Call

/-- A part of the handler. -/
abbrev Handle (α : Type) := Effect Panic CDBHandler α

/-- Change the state. -/
def update (f : CDBHandler → CDBHandler) : Handle Unit := fun s ↦ .ok () (f s)

/-- Read from the buffer. -/
def onBuffer {α : Type} (x : Arrays → Effect Panic CUQueue α) : Handle α := fun s ↦
  match x s.arrays s.buffer with
  | .ok a q => .ok a { s with buffer := q }
  | .throw e q => .throw e { s with buffer := q }
  | .fault => .fault

/-- Read from `m_blob`. -/
def onBlob {α : Type} (x : Arrays → Effect Panic CUQueue α) : Handle α := fun s ↦
  match x s.arrays s.m_blob with
  | .ok a q => .ok a { s with m_blob := q }
  | .throw e q => .throw e { s with m_blob := q }
  | .fault => .fault

/-- `db.m_vData = append(db.m_vData, o)`. -/
def appendData (o : Object) : Handle Unit := update fun s ↦ { s with m_vData := s.m_vData ++ [o] }

/-- `buffer.SetSize(0)`. -/
def emptyBuffer : Handle Unit := update fun s ↦ { s with buffer := s.buffer.SetSize s.arrays 0 }

/-- `db.m_blob.SetSize(0)`. -/
def emptyBlob : Handle Unit := update fun s ↦ { s with m_blob := s.m_blob.SetSize s.arrays 0 }

/-- `db.m_blob.PushBytes(buffer.PopBytes())`: the bytes are copied from the slice of the buffer. -/
def pushBlob : Handle Unit := fun s ↦
  match s.m_blob.PushBytes s.arrays (s.buffer.content s.arrays) with
  | some (m, q) => .ok () { s with
      arrays := m, m_blob := q,
      buffer := if s.buffer.GetSize = 0 then s.buffer else s.buffer.emptied }
  | none => .fault

/-- Where `GetBuffer(n)` points to, in which array; nothing if it is nil. -/
def pointer (m : Arrays) (q : CUQueue) (n : ℕ) : Option (ℕ × ℕ) :=
  match q.buffer with
  | none => none
  | some a =>
    if (m.elements a).length = 0 then none
    else if q.len = 0 then some (a, 0)
    else if q.len ≤ n then none
    else some (a, q.headPos + n)

/-- Write `bytes` at `GetBuffer(n)` of a queue. -/
def poke (m : Arrays) (q : CUQueue) (n : ℕ) (bytes : List UInt8) : Option Arrays :=
  match pointer m q n with
  | none => none
  | some (a, pos) =>
    if pos + bytes.length ≤ (m.elements a).length then some (m.write a pos bytes) else none

/-- Read the `uint32` at `GetBuffer(n)` of a queue. -/
def peekUInt (m : Arrays) (q : CUQueue) (n : ℕ) : Option ℕ :=
  match pointer m q n with
  | none => none
  | some (a, pos) =>
    if pos + 4 ≤ (m.elements a).length then some (ofLE (m.read ⟨a, pos, 4⟩)) else none

/-- `len := *(*uint32)(db.m_blob.GetBuffer(2))` and what is done with it. -/
def resetLength : Handle Unit := fun s ↦
  match peekUInt s.arrays s.m_blob 2 with
  | none => .fault
  | some len =>
    if BLOB_LENGTH_NOT_AVAILABLE ≤ len then
      match poke s.arrays s.m_blob 2 (leBytes 4 (sub32 s.m_blob.GetSize 6)) with
      | none => .fault
      | some m => .ok () { s with arrays := m }
    else .ok () s

/-! ### The cases of `requestProcessed` -/

/-- `for buffer.GetSize() > 0 { db.m_vData = append(db.m_vData, buffer.LoadObject()) }`: every turn
takes at least a tag, so that as many turns as there are bytes are enough. -/
def loadRows : ℕ → Handle Unit
  | 0 => fun s ↦ if s.buffer.GetSize = 0 then .ok () s else .fault
  | fuel + 1 => fun s ↦
    if s.buffer.GetSize = 0 then .ok () s
    else (do
      let o ← onBuffer CUQueue.LoadObject
      appendData o
      loadRows fuel : Handle Unit) s

/-- The loop over what is in the buffer. -/
def loadAll : Handle Unit := fun s ↦ loadRows s.buffer.GetSize s

/-- The number of output parameters, where the frame has one. -/
def loadOutputs : Handle ℕ := fun s ↦
  if 0 < s.buffer.GetSize then onBuffer (load · LoadUInt) s else .ok 0 s

/-- The callback for the descriptions of columns. -/
def callHeader (outputs : ℕ) : Handle Unit := update fun s ↦
  match s.m_mapRowset.lookup s.m_indexRowset with
  | some cbs =>
    if outputs = 0 ∧ s.m_vColInfo ≠ [] ∧ cbs.rh then
      { s with calls := s.calls ++ [.header s.m_indexRowset] }
    else s
  | none => s

def onRowsetHeader : Handle Unit := do
  update fun s ↦ { s with m_vData := [], m_vColInfo := [] }
  let cols ← onBuffer (load · loadColumnInfoArray)
  update fun s ↦ { s with m_vColInfo := cols }
  let index ← onBuffer (load · LoadULong)
  update fun s ↦ { s with m_indexRowset := index }
  let outputs ← loadOutputs
  callHeader outputs

/-- `db.m_indexRowset = buffer.LoadULong()`, where the frame has an index. -/
def loadIndex : Handle Unit := fun s ↦
  if 0 < s.buffer.GetSize then (do
    let index ← onBuffer (load · LoadULong)
    update fun s ↦ { s with m_indexRowset := index } : Handle Unit) s
  else .ok () s

def onBeginRows : Handle Unit := do
  emptyBlob
  update fun s ↦ { s with m_vData := [] }
  loadIndex

/-- The callback for the rows that have been collected. -/
def callRow (proc : Bool) : Handle Unit := update fun s ↦
  match s.m_mapRowset.lookup s.m_indexRowset with
  | some cbs =>
    if cbs.row then
      { s with calls := s.calls ++
          [.rows s.m_indexRowset proc (s.m_vData.map (Object.value s.arrays))] }
    else s
  | none => s

/-- The cells of the last frame are collected, and the callback is called if there are any. -/
def deliverRows : Handle Unit := fun s ↦
  if 0 < s.buffer.GetSize ∨ s.m_vData ≠ [] then (do
    loadAll
    callRow false : Handle Unit) s
  else .ok () s

def onEndRows : Handle Unit := do
  deliverRows
  update fun s ↦ { s with m_vData := [] }

/-- `Realloc` for a length that is known and too large for the array. -/
def reserved (m : Arrays) (q : CUQueue) (len : ℕ) : Arrays × CUQueue :=
  if len ≠ STRING_NULL_END ∧ q.GetMaxSize m < len then q.Realloc m len else (m, q)

def reserveBlob (len : ℕ) : Handle Unit := update fun s ↦
  { s with arrays := (reserved s.arrays s.m_blob len).1, m_blob := (reserved s.arrays s.m_blob len).2 }

def onStartBLOB : Handle Unit := fun s ↦
  if 0 < s.buffer.GetSize then (do
    emptyBlob
    let len ← onBuffer (load · LoadUInt)
    reserveBlob len
    pushBlob
    emptyBuffer : Handle Unit) s
  else .ok () s

def onChunk : Handle Unit := fun s ↦
  if 0 < s.buffer.GetSize then (do
    pushBlob
    emptyBuffer : Handle Unit) s
  else .ok () s

def onEndBLOB : Handle Unit := fun s ↦
  if 0 < s.buffer.GetSize ∨ 0 < s.m_blob.GetSize then (do
    pushBlob
    emptyBuffer
    resetLength
    let o ← onBlob CUQueue.LoadObject
    appendData o
    emptyBlob : Handle Unit) s
  else .ok () s

/-- `CDBHandler.requestProcessed`. -/
def requestProcessed : RowReqId → Handle Unit
  | .RowsetHeader => onRowsetHeader
  | .BeginRows => onBeginRows
  | .Transferring => loadAll
  | .StartBLOB => onStartBLOB
  | .Chunk => onChunk
  | .EndBLOB => onEndBLOB
  | .EndRows => onEndRows

/-! ### Receiving a frame -/

/-- The array of the buffer is large enough for the frame. -/
def makeRoom (n : ℕ) : Handle Unit := update fun s ↦
  if s.buffer.GetMaxSize s.arrays < n then
    { s with arrays := (s.buffer.Realloc s.arrays n).1,
             buffer := (s.buffer.Realloc s.arrays n).2 }
  else s

/-- `C.memcpy(s.buffer.GetBuffer(), …)`. -/
def copyIn (bytes : List UInt8) : Handle Unit := fun s ↦
  match poke s.arrays s.buffer 0 bytes with
  | none => .fault
  | some m => .ok () { s with arrays := m }

/-- The frame is copied into the buffer. -/
def receive (body : Body) : Handle Unit := do
  emptyBuffer
  if body.1 = [] then pure ()
  else do
    makeRoom body.1.length
    copyIn body.1
    update fun s ↦ { s with buffer := s.buffer.SetSize s.arrays body.1.length }

/-- `requestprocessed_go`, for a result that no callback of a request waits for. -/
def requestprocessed_go (f : Frame) : Handle Unit := do
  receive f.body
  requestProcessed f.reqId
  emptyBuffer

/-- A frame is handled; there is no next state if this panics or goes outside the memory. -/
def step (s : CDBHandler) (f : Frame) : Option CDBHandler :=
  match requestprocessed_go f s with
  | .ok _ t => some t
  | _ => none

/-- What `Tie` makes of a handler: the buffer has no array yet, and `m_blob` comes from the pool. -/
def CDBHandler.tied (m : Arrays) (blob : CUQueue) (callbacks : List (ℕ × cRowsetHandler)) :
    CDBHandler where
  arrays := m
  buffer := ⟨none, 0, 0, 0⟩
  m_blob := blob
  m_indexRowset := 0
  m_mapRowset := callbacks
  m_vColInfo := []
  m_vData := []
  calls := []

/-- `MakeBuffer` where the pool is empty. -/
def MakeBuffer (m : Arrays) : Arrays × CUQueue := (m.alloc (zeros 4096), ⟨some m.length, 0, 0, 4096⟩)

end SocketPro.Go.Slices
