import SocketPro.Buffer.StreamOperators
import SocketPro.Queue.AsyncQueue

/-!
# The frames of a transaction

How messages get into the batch buffer of a transaction: `BatchMessage`, `EnqueueBatch` and
`Enqueue` of the client (`aqhandler.h`), `EnqueueBatch` and `Enqueue` of the server
(`asyncqueueimpl.cpp`), and `CMyQueue::BatchEnqueue`, which stores what has been collected
(`asyncqueueimpl.h`). Inside a transaction `m_qTrans` and `m_bufferBatch` are set; the branches for
requests outside of one are those of `AsyncQueue`. `SendRequest` brings the bytes it is given to
`m_UQueue` of the server. The core queue is a parameter.

**Two writers, one layout.** A message is framed by its id and its length, by the client in a batch
and by the server otherwise (`Message.frame`). The number of messages is kept apart from the frames,
in front of a batch, as the argument of the request and in `m_count`.

**What may go wrong** is the memory of a buffer, whose capacity is computed in 32 bits. Whether it
does depends on the sizes alone (`Request.Fits`), and it is all that may: `framing_iff`.
-/

namespace SocketPro.Queue.Framing

open Bytes Buffer Machine

/-- A message; its `size` is an `unsigned int`. -/
structure Message extends Msg where
  size_lt : buffer.length < 2 ^ 32

/-- A buffer as `CScopeUQueue` and `SetSize(0)` give it. -/
def EmptyBuffer : Type := { q : CUQueue // q.content = [] }

/-! ### The client -/

/-- `q << idMessage << size` and `q.Push(buffer, size)`, on either side. -/
def pushFrame (idMessage : UInt16) (buffer : List UInt8) : Effect CUException CUQueue Unit := do
  pushBytes (leBytes 2 idMessage.toNat)
  pushBytes (leBytes 4 buffer.length)
  pushBytes buffer

/-- `*count += 1` for the number in front of the batch. -/
def countUp : Effect CUException CUQueue Unit := fun q ↦
  CUQueue.replace 0 (ofLE (q.content.take 4) + 1) q

/-- `CAsyncQueue::BatchMessage`. -/
def BatchMessage (m : Message) : Effect CUException CUQueue Unit := fun q ↦
  (if q.size = 0 then do
    pushBytes (leBytes 4 1)
    pushFrame m.idMessage m.buffer
  else do
    countUp
    pushFrame m.idMessage m.buffer) q

/-- `operator<<(const char*)`; `none` is the null pointer. -/
def pushKey : Option (List UInt8) → Effect CUException CUQueue Unit
  | none => pushBytes (leBytes 4 UQUEUE_NULL_LENGTH)
  | some str => do
    let size := str.length % 2 ^ 32
    pushBytes (leBytes 4 size)
    if size = 0 then pure () else pushBytes (str.take size)

/-- What a program leaves in a buffer of its own. -/
def contentOf {σ : Type} (q : CUQueue) (x : Effect CUException CUQueue Unit) :
    Effect CUException σ (List UInt8) := fun s ↦
  match x q with
  | .ok () q => .ok q.content s
  | .throw e _ => .throw e s
  | .fault => .fault

/-- `CAsyncQueue::EnqueueBatch`: what is sent, if anything. `sb` is the buffer of the request. -/
def EnqueueBatch {σ : Type} (sb : EmptyBuffer) (key : Option (List UInt8)) (buffer : List UInt8) :
    Effect CUException σ (Option (List UInt8)) :=
  if buffer.length < 10 then pure none
  else do
    let body ← contentOf sb.1 do
      pushKey key
      pushBytes buffer
    pure (some body)

/-- `CAsyncQueue::Enqueue`. -/
def Enqueue {σ : Type} (sb : EmptyBuffer) (key : Option (List UInt8)) (m : Message) :
    Effect CUException σ (List UInt8) :=
  contentOf sb.1 do
    pushKey key
    pushBytes (leBytes 2 m.idMessage.toNat)
    pushBytes m.buffer

/-- A client in a transaction fills a batch, starting from the empty buffer `q`, and sends it, or
sends a message. -/
inductive Request
  | enqueueBatch (q sb : EmptyBuffer) (key : Option (List UInt8)) (messages : List Message)
  | enqueue (sb : EmptyBuffer) (key : Option (List UInt8)) (message : Message)

/-! ### The server -/

/-- The fields of `CAsyncQueueImpl` in a transaction: what is left of the request, and what has been
collected. -/
structure Peer where
  m_UQueue : List UInt8
  m_bufferBatch : CUQueue
  m_count : UInt32

namespace Peer

/-- `StartTrans`. -/
def start (b : EmptyBuffer) : Peer := ⟨[], b.1, 0⟩

/-- Pop from `m_UQueue`. -/
def onUQueue {α : Type} (x : Pop α) : Effect CUException Peer α := fun p ↦
  match x p.m_UQueue with
  | .ok a c => .ok a { p with m_UQueue := c }
  | .throw e c => .throw e { p with m_UQueue := c }
  | .fault => .fault

/-- Push into `m_bufferBatch`. -/
def onBatch (x : Effect CUException CUQueue Unit) : Effect CUException Peer Unit := fun p ↦
  match x p.m_bufferBatch with
  | .ok () q => .ok () { p with m_bufferBatch := q }
  | .throw e q => .throw e { p with m_bufferBatch := q }
  | .fault => .fault

/-- `m_count += count`; its new value is the result of the request. -/
def addCount (count : UInt32) : Effect CUException Peer UInt32 := fun p ↦
  .ok (p.m_count + count) { p with m_count := p.m_count + count }

/-- `m_UQueue.SetSize(0)`. -/
def clear : Effect CUException Peer Unit := fun p ↦ .ok () { p with m_UQueue := [] }

/-- `CAsyncQueueImpl::EnqueueBatch`. -/
def EnqueueBatch (count : UInt32) : Effect CUException Peer UInt32 := do
  let c ← onUQueue fun c ↦ .ok c c
  onBatch (pushBytes c)
  let res ← addCount count
  clear
  pure res

/-- `CAsyncQueueImpl::Enqueue`. -/
def Enqueue (idMessage : UInt16) : Effect CUException Peer UInt32 := do
  let c ← onUQueue fun c ↦ .ok c c
  onBatch (pushFrame idMessage c)
  let index ← addCount 1
  clear
  pure index

/-- The request `idEnqueueBatch`. -/
def idEnqueueBatch : Effect CUException Peer UInt32 := do
  let _ ← onUQueue Server.popString
  let count ← onUQueue (popNumber 4 0)
  EnqueueBatch (UInt32.ofNat count)

/-- The request `idEnqueue`. -/
def idEnqueue : Effect CUException Peer UInt32 := do
  let _ ← onUQueue Server.popString
  let idMessage ← onUQueue (popNumber 2 0)
  Enqueue (UInt16.ofNat idMessage)

/-- The bytes of a request have come. -/
def receive (body : List UInt8) : Effect CUException Peer Unit := fun p ↦
  .ok () { p with m_UQueue := body }

end Peer

/-- All messages of a batch. -/
def batchMessages : List Message → Effect CUException CUQueue Unit
  | [] => pure ()
  | m :: ms => do
    BatchMessage m
    batchMessages ms

/-- A request from the client to the end of its processing. -/
def Request.process : Request → Effect CUException Peer Unit
  | enqueueBatch q sb key messages => do
    let batch ← contentOf q.1 (batchMessages messages)
    match ← Framing.EnqueueBatch sb key batch with
    | none => pure ()
    | some body => do
      Peer.receive body
      let _ ← Peer.idEnqueueBatch
      pure ()
  | enqueue sb key message => do
    let body ← Framing.Enqueue sb key message
    Peer.receive body
    let _ ← Peer.idEnqueue
    pure ()

/-- All requests of a transaction. -/
def processAll : List Request → Effect CUException Peer Unit
  | [] => pure ()
  | r :: rs => do
    r.process
    processAll rs

/-! ### Storing -/

/-- The core queue, with the calls that may fail; the index `none` is `INVALID_NUMBER`. -/
structure Core (σ : Type) where
  StartJob : σ → Bool × σ
  Enqueue : UInt16 → List UInt8 → σ → Option ℕ × σ
  BatchEnqueue : ℕ → List UInt8 → σ → Option ℕ × σ
  EndJob : σ → Bool × σ
  AbortJob : σ → σ

/-- `q >> idmessage >> bytes`, and the bytes at `GetBuffer()`. -/
def popFrame : Pop Msg := do
  let idmessage ← popNumber 2 0
  let bytes ← popNumber 4 0
  let buffer ← peek bytes 0
  let _ ← discard bytes 0
  pure ⟨UInt16.ofNat idmessage, buffer⟩

/-- What the core does where it succeeds: a message, or as many as a batch says, are behind what the
queue and its open job hold. -/
structure Core.Lawful {σ : Type} (core : Core σ) (queued : σ → List Msg) : Prop where
  startJob {s t : σ} : core.StartJob s = (true, t) → queued t = queued s
  enqueue {id : UInt16} {buffer : List UInt8} {index : ℕ} {s t : σ} :
    core.Enqueue id buffer s = (some index, t) → queued t = queued s ++ [⟨id, buffer⟩]
  batchEnqueue {count index : ℕ} {c rest : List UInt8} {ms : List Msg} {s t : σ} :
    repeatRead popFrame count c = .ok ms rest → core.BatchEnqueue count c s = (some index, t) →
      queued t = queued s ++ ms
  endJob {s t : σ} : core.EndJob s = (true, t) → queued t = queued s

/-- `CMyQueue::BatchEnqueue(count, buffer, errCode)`. -/
def BatchEnqueue {σ : Type} (core : Core σ) (count : ℕ) (buffer : List UInt8) :
    Effect CUException σ ErrCode := fun s ↦
  if count = 0 then .ok .QUEUE_OK s
  else if count = 1 then
    match popFrame buffer with
    | .ok m _ =>
      match core.Enqueue m.idMessage m.buffer s with
      | (none, s) => .ok .QUEUE_ENQUEUING_FAILED s
      | (some _, s) => .ok .QUEUE_OK s
    | .throw e _ => .throw e s
    | .fault => .fault
  else
    match core.StartJob s with
    | (false, s) => .ok .QUEUE_TRANS_COMMITTING_FAILED s
    | (true, s) =>
      match core.BatchEnqueue count buffer s with
      | (none, s) => .ok .QUEUE_ENQUEUING_FAILED (core.AbortJob s)
      | (some _, s) =>
        match core.EndJob s with
        | (false, s) => .ok .QUEUE_TRANS_COMMITTING_FAILED s
        | (true, s) => .ok .QUEUE_OK s

/-! ### What is to hold -/

/-- The messages of a request. -/
def Request.messages : Request → List Msg
  | enqueueBatch _ _ _ messages => messages.map Message.toMsg
  | enqueue _ _ message => [message.toMsg]

/-- The messages of a transaction, in order. -/
def allMessages (rs : List Request) : List Msg := rs.flatMap Request.messages

/-- `m_bufferBatch` is `m_count` frames, which are the messages, and a successful
`CMyQueue::BatchEnqueue` stores each once, as the call for several messages would do. -/
def Framed {σ : Type} (core : Core σ) (queued : σ → List Msg) (b : EmptyBuffer)
    (rs : List Request) : Prop :=
  ∃ p, processAll rs (.start b) = .ok () p ∧
    repeatRead popFrame p.m_count.toNat p.m_bufferBatch.content = .ok (allMessages rs) [] ∧
    (∀ s, ∃ e t, BatchEnqueue core p.m_count.toNat p.m_bufferBatch.content s = .ok e t ∧
      (e = .QUEUE_OK → queued t = queued s ++ allMessages rs)) ∧
    ∀ s index t, core.BatchEnqueue p.m_count.toNat p.m_bufferBatch.content s = (some index, t) →
      queued t = queued s ++ allMessages rs

/-! ### Pieces and frames -/

/-- What is pushed for a message. -/
def pieces (m : Msg) : List (List UInt8) :=
  [leBytes 2 m.idMessage.toNat, leBytes 4 m.buffer.length, m.buffer]

/-- A message on the wire. -/
def frame (m : Msg) : List UInt8 := (pieces m).flatten

/-- The frames of messages. -/
def frames (ms : List Msg) : List UInt8 := ms.flatMap frame

/-- What is pushed for a batch. -/
def batchPieces : List Msg → List (List UInt8)
  | [] => []
  | m :: ms => leBytes 4 1 :: (m :: ms).flatMap pieces

/-- A batch: nothing, or the number of its messages and their frames. -/
def batch : List Msg → List UInt8
  | [] => []
  | m :: ms => leBytes 4 (m :: ms).length ++ frames (m :: ms)

/-- What is pushed for a key. -/
def keyPieces : Option (List UInt8) → List (List UInt8)
  | none => [leBytes 4 UQUEUE_NULL_LENGTH]
  | some str => [leBytes 4 (str.length % 2 ^ 32), str.take (str.length % 2 ^ 32)]

/-- What a request pushes into `m_bufferBatch`. -/
def Request.pushed : Request → List (List UInt8)
  | enqueueBatch _ _ _ messages =>
    if messages = [] then [] else [frames (messages.map Message.toMsg)]
  | enqueue _ _ message => pieces message.toMsg

/-- The pieces fit the memory that the buffer computes for them. -/
def Fits (q : CUQueue) (ps : List (List UInt8)) : Prop := (q.growth ps).isSome

instance (q : CUQueue) (ps : List (List UInt8)) : Decidable (Fits q ps) :=
  inferInstanceAs (Decidable (_ = true))

/-- A request fits the buffers of the client. -/
def Request.Fits : Request → Prop
  | enqueueBatch q sb key messages =>
    Framing.Fits q.1 (batchPieces (messages.map Message.toMsg)) ∧
      (messages ≠ [] →
        Framing.Fits sb.1 (keyPieces key ++ [batch (messages.map Message.toMsg)]))
  | enqueue sb key message => Framing.Fits sb.1 (keyPieces key ++
      [leBytes 2 message.idMessage.toNat, message.buffer])

/-- All buffers of the transaction have room. -/
def AllFit (b : EmptyBuffer) (rs : List Request) : Prop :=
  (∀ r ∈ rs, r.Fits) ∧ Fits b.1 (rs.flatMap Request.pushed)

/-! ### Frames are read back -/

theorem length_frame (m : Msg) : (frame m).length = 6 + m.buffer.length := by
  simp only [frame, pieces, List.flatten_cons, List.flatten_nil, List.length_append,
    length_leBytes, List.length_nil]
  omega

theorem length_le_frames (ms : List Msg) : 6 * ms.length ≤ (frames ms).length := by
  induction ms with
  | nil => exact Nat.zero_le _
  | cons m ms ih =>
    have hframe := length_frame m
    rw [frames, List.flatMap_cons, List.length_append, List.length_cons, ← frames]
    omega

theorem frames_append (ms ms' : List Msg) : frames (ms ++ ms') = frames ms ++ frames ms' :=
  List.flatMap_append

theorem frames_singleton (m : Msg) : frames [m] = (pieces m).flatten := List.flatMap_singleton ..

theorem popFrame_decodes {m : Msg} (hm : m.buffer.length < 2 ^ 32) :
    Decodes (2 ^ 32) popFrame (frame m) m := by
  have hframe : frame m =
      leBytes 2 m.idMessage.toNat ++ (leBytes 4 m.buffer.length ++ m.buffer) := by
    rw [frame, pieces, List.flatten_cons, List.flatten_cons, List.flatten_singleton]
  rw [hframe]
  refine (Database.popNumber_decodes m.idMessage.toNat_lt).bind ?_
  refine (Database.popNumber_decodes hm).bind fun rest _ ↦ ?_
  have hpeek : peek m.buffer.length ([] : List UInt8).length ([] ++ (m.buffer ++ rest)) = _ :=
    peek_ok
  have hdiscard : discard m.buffer.length ([] : List UInt8).length ([] ++ (m.buffer ++ rest)) = _ :=
    discard_ok
  simp only [List.nil_append, List.length_nil] at hpeek hdiscard
  rw [Effect.bind_ok hpeek, Effect.bind_ok hdiscard, UInt16.ofNat_toNat]
  rfl

/-- As many frames as there are messages, and nothing behind them. -/
theorem repeatRead_frames {ms : List Msg} (hms : (frames ms).length < 2 ^ 32) :
    repeatRead popFrame ms.length (frames ms) = .ok ms [] := by
  have hframe {m : Msg} (hm : m ∈ ms) : m.buffer.length < 2 ^ 32 := by
    have hle : (frame m).length ≤ (frames ms).length :=
      (List.sublist_flatten_of_mem (List.mem_map_of_mem hm)).length_le
    have hlength := length_frame m
    omega
  have hread := Decodes.repeatRead (fun m hm ↦ popFrame_decodes (hframe hm)) []
    (by rwa [List.append_nil])
  rwa [List.append_nil] at hread

/-! ### What the client sends -/

/-- A buffer with the same size, capacity and block size grows in the same way. -/
theorem reaches_of_same {q q' : CUQueue} {ps : List (List UInt8)} {c : List UInt8}
    {o : Outcome CUException CUQueue Unit} (hsize : q'.size = q.size)
    (hmax : q'.m_nMaxBuffer = q.m_nMaxBuffer) (hblock : q'.m_nBlockSize = q.m_nBlockSize)
    (h : Reaches q' ps c o) : Reaches q ps c o := by
  rw [Reaches, CUQueue.growth, hsize, hmax, hblock] at h
  exact h

theorem pushFrame_inserts (m : Msg) (q : CUQueue) :
    Inserts q q.size (pieces m) (pushFrame m.idMessage m.buffer q) :=
  Inserts.append_end (pushBytes_inserts q _) fun q ↦
    Inserts.append_end (pushBytes_inserts q _) fun q ↦ pushBytes_inserts q _

/-- What is pushed is behind the content. -/
theorem reaches_of_inserts {q : CUQueue} {ps : List (List UInt8)}
    {o : Outcome CUException CUQueue Unit} (h : Inserts q q.size ps o) :
    Reaches q ps (q.content ++ ps.flatten) o := by
  rwa [Inserts, CUQueue.size, insertAt_length] at h

theorem leBytes_count (n : ℕ) (c : List UInt8) :
    leBytes 4 (ofLE ((leBytes 4 n ++ c).take 4) + 1) = leBytes 4 (n + 1) := by
  have htake : (leBytes 4 n ++ c).take 4 = leBytes 4 n := List.take_left' (length_leBytes 4 n)
  have hmod (k : ℕ) : leBytes 4 (k % 256 ^ 4) = leBytes 4 k := by
    have hbytes := leBytes_ofLE (leBytes 4 k)
    rwa [length_leBytes, ofLE_leBytes] at hbytes
  rw [htake, ofLE_leBytes, ← hmod, Nat.mod_add_mod, hmod]

theorem batch_of_ne {ms : List Msg} (hms : ms ≠ []) :
    batch ms = leBytes 4 ms.length ++ frames ms := by
  cases ms with
  | nil => exact absurd rfl hms
  | cons m ms => rfl

/-- A further message: the number in front is one more, and the frame is behind the others. -/
theorem batchMessage_reaches {q : CUQueue} {ms : List Msg} (hms : ms ≠ [])
    (hq : q.content = batch ms) (m : Message) :
    Reaches q (pieces m.toMsg) (batch (ms ++ [m.toMsg])) (BatchMessage m q) := by
  rw [batch_of_ne hms] at hq
  obtain ⟨q', hok, hcontent, hmax, hblock, -⟩ := replace_ok (c := [])
    (n := ofLE (q.content.take 4) + 1) hq
  rw [hq, leBytes_count, List.nil_append] at hcontent
  have hsize : q'.size = q.size := by
    rw [CUQueue.size, CUQueue.size, hcontent, hq]
    simp only [List.length_append, length_leBytes]
  have hzero : q.size ≠ 0 := by
    rw [CUQueue.size, hq, List.length_append, length_leBytes]
    omega
  have hcount : countUp q = .ok () q' := hok
  rw [BatchMessage, if_neg hzero, Effect.bind_ok hcount]
  have hreaches := reaches_of_inserts (pushFrame_inserts m.toMsg q')
  have hbatch : q'.content ++ (pieces m.toMsg).flatten = batch (ms ++ [m.toMsg]) := by
    rw [batch_of_ne (List.append_ne_nil_of_left_ne_nil hms _), frames_append, hcontent,
      List.length_append, List.append_assoc, frames_singleton]
    rfl
  rw [hbatch] at hreaches
  exact reaches_of_same hsize hmax hblock hreaches

theorem length_batch {ms : List Msg} (hms : ms ≠ []) :
    (batch ms).length = 4 + (frames ms).length := by
  rw [batch_of_ne hms, List.length_append, length_leBytes]

theorem batchMessages_reaches_of_ne {ms : List Msg} (hms : ms ≠ []) (ms' : List Message)
    {q : CUQueue} (hq : q.content = batch ms) :
    Reaches q ((ms'.map Message.toMsg).flatMap pieces) (batch (ms ++ ms'.map Message.toMsg))
      (batchMessages ms' q) := by
  induction ms' generalizing ms q with
  | nil =>
    refine ⟨q, rfl, ?_, rfl, rfl⟩
    rw [List.map_nil, List.append_nil, hq]
  | cons m ms' ih =>
    have hne : ms ++ [m.toMsg] ≠ [] := List.append_ne_nil_of_left_ne_nil hms _
    refine Reaches.append ?_ (batchMessage_reaches hms hq m) fun q' hq' ↦ ?_
    · rw [CUQueue.size, hq, length_batch hne, length_batch hms, frames_append, List.length_append,
        frames_singleton, Nat.add_assoc]
    · rw [List.map_cons, List.append_cons]
      exact ih hne hq'

/-- **A batch** is the number of its messages and their frames. -/
theorem batchMessages_reaches (ms : List Message) {q : CUQueue} (hq : q.content = []) :
    Reaches q (batchPieces (ms.map Message.toMsg)) (batch (ms.map Message.toMsg))
      (batchMessages ms q) := by
  cases ms with
  | nil => exact ⟨q, rfl, hq, rfl, rfl⟩
  | cons m ms =>
    have hsize : q.size = 0 := congrArg List.length hq
    have hfirst : Reaches q (leBytes 4 1 :: pieces m.toMsg) (batch [m.toMsg])
        (BatchMessage m q) := by
      have hbatch : batch [m.toMsg] = q.content ++ (leBytes 4 1 :: pieces m.toMsg).flatten := by
        rw [hq, List.nil_append, List.flatten_cons, ← frames_singleton]
        rfl
      have hinserts : Inserts q q.size ([leBytes 4 1] ++ pieces m.toMsg) (BatchMessage m q) := by
        rw [BatchMessage, if_pos hsize]
        exact Inserts.append_end (pushBytes_inserts q _) fun q' ↦ pushFrame_inserts m.toMsg q'
      rw [hbatch]
      exact reaches_of_inserts hinserts
    show Reaches q ((leBytes 4 1 :: pieces m.toMsg) ++ (ms.map Message.toMsg).flatMap pieces) _ _
    refine Reaches.append ?_ hfirst fun q' hq' ↦ ?_
    · rw [hsize, Nat.zero_add, length_batch (List.cons_ne_nil _ _), frames_singleton,
        List.flatten_cons, List.length_append, length_leBytes]
    · exact batchMessages_reaches_of_ne (List.cons_ne_nil _ _) ms hq'

theorem pushKey_inserts (key : Option (List UInt8)) (q : CUQueue) :
    Inserts q q.size (keyPieces key) (pushKey key q) := by
  cases key with
  | none => exact pushBytes_inserts q _
  | some str =>
    refine Inserts.append_end (pushBytes_inserts q _) fun q' ↦ ?_
    split
    · rename_i hzero
      have hinserts := pushBytes_inserts q' (str.take (str.length % 2 ^ 32))
      have hnil : str.take (str.length % 2 ^ 32) = [] := by rw [hzero, List.take_zero]
      rw [hnil] at hinserts ⊢
      exact hinserts
    · exact pushBytes_inserts q' _

/-- Whatever was sent as the key is taken off again. -/
theorem popString_key {key : Option (List UInt8)} (hkey : (keyPieces key).flatten.length < 2 ^ 32) :
    ∃ str, Decodes (2 ^ 32) Server.popString (keyPieces key).flatten str := by
  cases key with
  | none =>
    refine ⟨[], fun rest hrest ↦ ?_⟩
    rw [keyPieces, List.flatten_singleton] at hrest ⊢
    exact (Server.popText_recognizes _ _ _ _ _ hrest).2 ⟨_, rfl, .null⟩
  | some str =>
    refine ⟨str.take (str.length % 2 ^ 32), ?_⟩
    have hlength : (str.take (str.length % 2 ^ 32)).length = str.length % 2 ^ 32 :=
      List.length_take_of_le (Nat.mod_le _ _)
    have hflatten : (keyPieces (some str)).flatten =
        leBytes 4 (str.take (str.length % 2 ^ 32)).length ++ str.take (str.length % 2 ^ 32) := by
      rw [keyPieces, List.flatten_cons, List.flatten_singleton, hlength]
    rw [hflatten] at hkey ⊢
    refine popText_decodes _ _ rfl ?_
    rw [List.length_append, length_leBytes] at hkey
    show _ < 4294967295
    omega

/-! ### Buffers of the client -/

section Content

variable {q : CUQueue} {ps : List (List UInt8)} {c : List UInt8}
  {x : Effect CUException CUQueue Unit} {σ : Type} {s : σ}

theorem contentOf_ok (h : Reaches q ps c (x q)) (hfits : Fits q ps) :
    contentOf q x s = .ok c s ∧ c.length < 2 ^ 32 := by
  obtain ⟨m, hm⟩ := Option.isSome_iff_exists.1 hfits
  rw [Reaches, hm] at h
  obtain ⟨q', hok, rfl, -⟩ := h
  refine ⟨by rw [contentOf, hok], ?_⟩
  have hfits' := q'.fits
  have hmax := q'.max_lt
  omega

theorem contentOf_fault (h : Reaches q ps c (x q)) (hfits : ¬ Fits q ps) :
    contentOf q x s = .fault := by
  have hnone : q.growth ps = none := Option.not_isSome_iff_eq_none.1 hfits
  rw [Reaches, hnone] at h
  rw [contentOf, h]

end Content

/-! ### What the server does with a request -/

/-- `Reaches` for the server: `m_count` grows by `n` besides. -/
def PeerReaches {α : Type} (p : Peer) (ps : List (List UInt8)) (c : List UInt8) (n : ℕ)
    (o : Outcome CUException Peer α) : Prop :=
  match p.m_bufferBatch.growth ps with
  | some m => ∃ a p', o = .ok a p' ∧ p'.m_bufferBatch.content = c ∧
      p'.m_bufferBatch.m_nMaxBuffer = m ∧
      p'.m_bufferBatch.m_nBlockSize = p.m_bufferBatch.m_nBlockSize ∧
      p'.m_count = p.m_count + UInt32.ofNat n
  | none => o = .fault

section Server

variable {α β : Type} {p : Peer} {ps ps' : List (List UInt8)} {c c' : List UInt8} {n n' : ℕ}

/-- **Sequencing.** -/
theorem PeerReaches.append {x : Effect CUException Peer α} {f : α → Effect CUException Peer β}
    (hc : c.length = p.m_bufferBatch.size + ps.flatten.length) (hx : PeerReaches p ps c n (x p))
    (hf : ∀ a p', p'.m_bufferBatch.content = c → PeerReaches p' ps' c' n' (f a p')) :
    PeerReaches p (ps ++ ps') c' (n + n') ((x >>= f) p) := by
  have hgrowth : p.m_bufferBatch.growth (ps ++ ps') = (p.m_bufferBatch.growth ps).bind fun m ↦
      growth p.m_bufferBatch.m_nBlockSize m (p.m_bufferBatch.size + ps.flatten.length)
        (ps'.map List.length) := by
    rw [CUQueue.growth, List.map_append, growth_append, List.length_flatten]
    rfl
  unfold PeerReaches at hx ⊢
  rw [hgrowth]
  cases hm : p.m_bufferBatch.growth ps with
  | none =>
    rw [hm] at hx
    exact Effect.bind_fault hx
  | some m =>
    rw [hm] at hx
    obtain ⟨a, p', hok, hcontent, hmax, hblock, hcount⟩ := hx
    have hsize : p'.m_bufferBatch.size = p.m_bufferBatch.size + ps.flatten.length := by
      rw [CUQueue.size, hcontent, hc]
    have hf' := hf a p' hcontent
    rw [PeerReaches, CUQueue.growth, hmax, hblock, hsize, hcount, add_assoc,
      ← UInt32.ofNat_add] at hf'
    rw [Option.bind_some, Effect.bind_ok hok]
    exact hf'

/-- A result that is not looked at. -/
theorem PeerReaches.ignore {x : Effect CUException Peer α} {r : Peer}
    (h : PeerReaches p ps c n (x r)) :
    PeerReaches p ps c n ((x >>= fun _ ↦ (pure () : Effect CUException Peer Unit)) r) := by
  unfold PeerReaches at h ⊢
  cases hm : p.m_bufferBatch.growth ps with
  | none =>
    rw [hm] at h
    exact Effect.bind_fault h
  | some m =>
    rw [hm] at h
    obtain ⟨a, p', hok, hp'⟩ := h
    exact ⟨(), p', Effect.bind_ok hok, hp'⟩

/-- What is pushed into `m_bufferBatch`, and counted. -/
theorem push_reaches {x : Effect CUException CUQueue Unit}
    (hx : Reaches p.m_bufferBatch ps c (x p.m_bufferBatch)) :
    PeerReaches p ps c n ((do
      Peer.onBatch x
      let res ← Peer.addCount (UInt32.ofNat n)
      Peer.clear
      pure res : Effect CUException Peer UInt32) p) := by
  unfold Reaches at hx
  unfold PeerReaches
  cases hm : p.m_bufferBatch.growth ps with
  | none =>
    rw [hm] at hx
    have hfault : Peer.onBatch x p = .fault := by
      rw [Peer.onBatch, hx]
    exact Effect.bind_fault hfault
  | some m =>
    rw [hm] at hx
    obtain ⟨q', hok, hcontent, hmax, hblock⟩ := hx
    have hpush : Peer.onBatch x p = .ok () { p with m_bufferBatch := q' } := by
      rw [Peer.onBatch, hok]
    rw [Effect.bind_ok hpush]
    exact ⟨_, _, rfl, hcontent, hmax, hblock, rfl⟩

/-- The content of a batch goes to the end of `m_bufferBatch` as it is. -/
theorem enqueueBatch_reaches (p : Peer) (n : ℕ) :
    PeerReaches p [p.m_UQueue] (p.m_bufferBatch.content ++ p.m_UQueue) n
      (p.EnqueueBatch (UInt32.ofNat n)) := by
  have hpush := reaches_of_inserts (pushBytes_inserts p.m_bufferBatch p.m_UQueue)
  rw [List.flatten_singleton] at hpush
  exact push_reaches hpush

/-- A message gets its frame. -/
theorem enqueue_reaches (p : Peer) (idMessage : UInt16) :
    PeerReaches p (pieces ⟨idMessage, p.m_UQueue⟩)
      (p.m_bufferBatch.content ++ frame ⟨idMessage, p.m_UQueue⟩) 1 (p.Enqueue idMessage) :=
  push_reaches (n := 1) (reaches_of_inserts (pushFrame_inserts ⟨idMessage, p.m_UQueue⟩ _))

theorem onUQueue_decodes {x : Pop α} {b rest : List UInt8} {a : α} (hx : Decodes (2 ^ 32) x b a)
    (hlength : (b ++ rest).length < 2 ^ 32) :
    Peer.onUQueue x { p with m_UQueue := b ++ rest } = .ok a { p with m_UQueue := rest } := by
  rw [Peer.onUQueue, hx rest hlength]

theorem idEnqueueBatch_reaches {key : Option (List UInt8)} (hn : n < 2 ^ 32)
    (hlength : ((keyPieces key).flatten ++ (leBytes 4 n ++ c)).length < 2 ^ 32) (p : Peer) :
    PeerReaches p [c] (p.m_bufferBatch.content ++ c) n (Peer.idEnqueueBatch
      { p with m_UQueue := (keyPieces key).flatten ++ (leBytes 4 n ++ c) }) := by
  have hkey := (List.prefix_append _ _).length_le.trans_lt hlength
  have hrest := (List.suffix_append _ _).length_le.trans_lt hlength
  obtain ⟨str, hstr⟩ := popString_key hkey
  rw [Peer.idEnqueueBatch, Effect.bind_ok (onUQueue_decodes hstr hlength),
    Effect.bind_ok (onUQueue_decodes (Database.popNumber_decodes hn) hrest)]
  exact enqueueBatch_reaches { p with m_UQueue := c } n

theorem idEnqueue_reaches {key : Option (List UInt8)} {m : Msg}
    (hlength : ((keyPieces key).flatten ++
      (leBytes 2 m.idMessage.toNat ++ m.buffer)).length < 2 ^ 32) (p : Peer) :
    PeerReaches p (pieces m) (p.m_bufferBatch.content ++ frame m) 1 (Peer.idEnqueue { p with
      m_UQueue := (keyPieces key).flatten ++ (leBytes 2 m.idMessage.toNat ++ m.buffer) }) := by
  have hkey := (List.prefix_append _ _).length_le.trans_lt hlength
  have hrest := (List.suffix_append _ _).length_le.trans_lt hlength
  obtain ⟨str, hstr⟩ := popString_key hkey
  rw [Peer.idEnqueue, Effect.bind_ok (onUQueue_decodes hstr hlength),
    Effect.bind_ok (onUQueue_decodes (Database.popNumber_decodes m.idMessage.toNat_lt) hrest),
    UInt16.ofNat_toNat]
  exact enqueue_reaches { p with m_UQueue := m.buffer } m.idMessage

end Server

/-! ### A request -/

section Process

variable {p : Peer} {q sb : EmptyBuffer} {ms : List Message} {key : Option (List UInt8)}

/-- The body of a request: the key and what stands behind it. -/
theorem body_reaches (sb : EmptyBuffer) (key : Option (List UInt8)) {ps : List (List UInt8)}
    {x : Effect CUException CUQueue Unit} (hx : ∀ q, Inserts q q.size ps (x q)) :
    Reaches sb.1 (keyPieces key ++ ps) ((keyPieces key).flatten ++ ps.flatten)
      ((pushKey key >>= fun _ ↦ x) sb.1) := by
  have hinserts : Inserts sb.1 sb.1.size (keyPieces key ++ ps)
      ((pushKey key >>= fun _ ↦ x) sb.1) :=
    Inserts.append_end (pushKey_inserts key sb.1) hx
  have hreaches := reaches_of_inserts hinserts
  rwa [sb.2, List.nil_append, List.flatten_append] at hreaches

theorem batch_body_reaches (l : List Msg) :
    Reaches sb.1 (keyPieces key ++ [batch l]) ((keyPieces key).flatten ++ batch l)
      ((pushKey key >>= fun _ ↦ pushBytes (batch l)) sb.1) := by
  have hbody := body_reaches sb key fun q ↦ pushBytes_inserts q (batch l)
  rwa [List.flatten_singleton] at hbody

theorem enqueueBatch_of_ne {σ : Type} {l : List Msg} (hl : l ≠ []) :
    (EnqueueBatch sb key (batch l) : Effect CUException σ _) =
      contentOf sb.1 (pushKey key >>= fun _ ↦ pushBytes (batch l)) >>= fun body ↦
        pure (some body) := by
  have hcount := length_le_frames l
  have hpos : 0 < l.length := List.length_pos_iff.2 hl
  have hsize := length_batch hl
  exact if_neg (by omega)

theorem receive_bind {α : Type} (body : List UInt8) (f : Unit → Effect CUException Peer α) :
    (Peer.receive body >>= f) p = f () { p with m_UQueue := body } := rfl

theorem enqueueBatch_process (hbatch : Fits q.1 (batchPieces (ms.map Message.toMsg)))
    (hsend : ms ≠ [] → Fits sb.1 (keyPieces key ++ [batch (ms.map Message.toMsg)])) :
    PeerReaches p (Request.enqueueBatch q sb key ms).pushed
      (p.m_bufferBatch.content ++ frames (ms.map Message.toMsg)) (ms.map Message.toMsg).length
      ((Request.enqueueBatch q sb key ms).process p) := by
  obtain ⟨hcontent, -⟩ := contentOf_ok (s := p) (batchMessages_reaches ms q.2) hbatch
  rw [Request.process, Effect.bind_ok hcontent, Request.pushed]
  by_cases hms : ms = []
  · -- Nothing is sent.
    subst hms
    exact ⟨(), p, rfl, (List.append_nil _).symm, rfl, rfl, (add_zero p.m_count).symm⟩
  · have hsend := hsend hms
    rw [if_neg hms]
    have hl : ms.map Message.toMsg ≠ [] := fun h ↦ hms (List.map_eq_nil_iff.1 h)
    generalize ms.map Message.toMsg = l at hl hsend ⊢
    obtain ⟨hok, hlength⟩ := contentOf_ok (s := p) (batch_body_reaches l) hsend
    rw [batch_of_ne hl] at hlength hok
    have hcount := length_le_frames l
    have hbody : EnqueueBatch sb key (batch l) p = .ok (some ((keyPieces key).flatten ++
        (leBytes 4 l.length ++ frames l))) p := by
      rw [enqueueBatch_of_ne hl, batch_of_ne hl, Effect.bind_ok hok]
      rfl
    rw [Effect.bind_ok hbody]
    refine (idEnqueueBatch_reaches ?_ hlength p).ignore
    rw [List.length_append, List.length_append] at hlength
    omega

theorem message_body_reaches (m : Msg) :
    Reaches sb.1 (keyPieces key ++ [leBytes 2 m.idMessage.toNat, m.buffer])
      ((keyPieces key).flatten ++ (leBytes 2 m.idMessage.toNat ++ m.buffer))
      ((do
        pushKey key
        pushBytes (leBytes 2 m.idMessage.toNat)
        pushBytes m.buffer) sb.1) := by
  have hinserts (q : CUQueue) : Inserts q q.size ([leBytes 2 m.idMessage.toNat] ++ [m.buffer])
      ((pushBytes (leBytes 2 m.idMessage.toNat) >>= fun _ ↦ pushBytes m.buffer) q) :=
    Inserts.append_end (pushBytes_inserts q _) fun q' ↦ pushBytes_inserts q' _
  have hbody := body_reaches sb key hinserts
  rwa [List.flatten_append, List.flatten_singleton, List.flatten_singleton] at hbody

theorem enqueue_process {m : Message} (hsend : (Request.enqueue sb key m).Fits) :
    PeerReaches p (pieces m.toMsg) (p.m_bufferBatch.content ++ frame m.toMsg) 1
      ((Request.enqueue sb key m).process p) := by
  obtain ⟨hok, hlength⟩ := contentOf_ok (s := p) (message_body_reaches m.toMsg) hsend
  have hbody : Enqueue sb key m p = .ok _ p := hok
  rw [Request.process, Effect.bind_ok hbody, receive_bind]
  exact (idEnqueue_reaches (m := m.toMsg) hlength p).ignore

/-- A request that fits puts the frames of its messages behind the others, and counts them. -/
theorem process_reaches {r : Request} (hr : r.Fits) (p : Peer) :
    PeerReaches p r.pushed (p.m_bufferBatch.content ++ frames r.messages) r.messages.length
      (r.process p) := by
  cases r with
  | enqueueBatch q sb key ms => exact enqueueBatch_process hr.1 hr.2
  | enqueue sb key m =>
    rw [Request.messages, frames_singleton]
    exact enqueue_process hr

/-- A request that does not fit writes behind a buffer of the client. -/
theorem process_fault {r : Request} (hr : ¬ r.Fits) (p : Peer) : r.process p = .fault := by
  cases r with
  | enqueueBatch q sb key ms =>
    rw [Request.process]
    by_cases hbatch : Fits q.1 (batchPieces (ms.map Message.toMsg))
    · have hsend : ¬ (ms ≠ [] → Fits sb.1 (keyPieces key ++ [batch (ms.map Message.toMsg)])) :=
        fun h ↦ hr ⟨hbatch, h⟩
      obtain ⟨hms, hsend⟩ := Classical.not_imp.1 hsend
      have hl : ms.map Message.toMsg ≠ [] := fun h ↦ hms (List.map_eq_nil_iff.1 h)
      obtain ⟨hcontent, -⟩ := contentOf_ok (s := p) (batchMessages_reaches ms q.2) hbatch
      rw [Effect.bind_ok hcontent, enqueueBatch_of_ne hl]
      have hfault := contentOf_fault (s := p) (batch_body_reaches _) hsend
      exact Effect.bind_fault (Effect.bind_fault hfault)
    · exact Effect.bind_fault (contentOf_fault (batchMessages_reaches ms q.2) hbatch)
  | enqueue sb key m =>
    exact Effect.bind_fault (contentOf_fault (message_body_reaches m.toMsg) hr)

end Process

/-! ### A transaction -/

theorem flatten_pushed (r : Request) : r.pushed.flatten = frames r.messages := by
  cases r with
  | enqueueBatch q sb key ms =>
    rw [Request.pushed]
    split
    · rename_i hms
      rw [hms]
      rfl
    · exact List.flatten_singleton ..
  | enqueue sb key m => exact (frames_singleton m.toMsg).symm

theorem processAll_reaches {rs : List Request} (hrs : ∀ r ∈ rs, r.Fits) (p : Peer) :
    PeerReaches p (rs.flatMap Request.pushed)
      (p.m_bufferBatch.content ++ frames (allMessages rs)) (allMessages rs).length
      (processAll rs p) := by
  induction rs generalizing p with
  | nil => exact ⟨(), p, rfl, (List.append_nil _).symm, rfl, rfl, (add_zero p.m_count).symm⟩
  | cons r rs ih =>
    obtain ⟨hr, hrs⟩ := List.forall_mem_cons.1 hrs
    rw [List.flatMap_cons, allMessages, List.flatMap_cons, List.length_append, frames_append,
      ← List.append_assoc]
    refine PeerReaches.append ?_ (process_reaches hr p) fun _ p' hp' ↦ ?_
    · rw [List.length_append, flatten_pushed]
      rfl
    · rw [← hp']
      exact ih hrs p'

theorem processAll_fault {rs : List Request} (hrs : ¬ ∀ r ∈ rs, r.Fits) (p : Peer) :
    processAll rs p = .fault := by
  induction rs generalizing p with
  | nil => exact absurd nofun hrs
  | cons r rs ih =>
    by_cases hr : r.Fits
    · have hrest : ¬ ∀ r ∈ rs, r.Fits := fun h ↦ hrs (List.forall_mem_cons.2 ⟨hr, h⟩)
      have hreaches := process_reaches hr p
      unfold PeerReaches at hreaches
      cases hm : p.m_bufferBatch.growth r.pushed with
      | none =>
        rw [hm] at hreaches
        exact Effect.bind_fault hreaches
      | some m =>
        rw [hm] at hreaches
        obtain ⟨u, p', hok, -⟩ := hreaches
        rw [processAll, Effect.bind_ok hok]
        exact ih hrest p'
    · exact Effect.bind_fault (process_fault hr p)

/-- A transaction whose requests fit collects the frames of all messages and counts them; one whose
requests do not fit writes behind a buffer. -/
theorem processAll_start (b : EmptyBuffer) (rs : List Request) :
    (AllFit b rs → ∃ p, processAll rs (.start b) = .ok () p ∧
      p.m_bufferBatch.content = frames (allMessages rs) ∧
      p.m_count.toNat = (allMessages rs).length ∧ (frames (allMessages rs)).length < 2 ^ 32) ∧
    (¬ AllFit b rs → processAll rs (.start b) = .fault) := by
  constructor
  · rintro ⟨hrs, hbatch⟩
    obtain ⟨m, hm⟩ := Option.isSome_iff_exists.1 hbatch
    have hreaches := processAll_reaches hrs (.start b)
    rw [PeerReaches, Peer.start, hm] at hreaches
    obtain ⟨u, p, hok, hcontent, -, -, hcount⟩ := hreaches
    rw [b.2, List.nil_append] at hcontent
    have hlength : (frames (allMessages rs)).length < 2 ^ 32 := by
      have hfits := p.m_bufferBatch.fits
      have hmax := p.m_bufferBatch.max_lt
      rw [← hcontent]
      omega
    have hle := length_le_frames (allMessages rs)
    refine ⟨p, hok, hcontent, ?_, hlength⟩
    rw [hcount, zero_add]
    have hsize : (allMessages rs).length < UInt32.size := by
      show _ < 4294967296
      omega
    exact UInt32.toNat_ofNat_of_lt' hsize
  · intro hfit
    by_cases hrs : ∀ r ∈ rs, r.Fits
    · have hnone : b.1.growth (rs.flatMap Request.pushed) = none :=
        Option.not_isSome_iff_eq_none.1 fun h ↦ hfit ⟨hrs, h⟩
      have hreaches := processAll_reaches hrs (.start b)
      rw [PeerReaches, Peer.start, hnone] at hreaches
      exact hreaches
    · exact processAll_fault hrs _

/-- A block size that divides 2^31, as that of `CScopeUQueue` does, is enough below 2^31 bytes. -/
theorem fits_of_block {q : CUQueue} {ps : List (List UInt8)} (hblock : q.m_nBlockSize ∣ 2 ^ 31)
    (hlength : q.size + ps.flatten.length < 2 ^ 31) : Fits q ps := by
  have hsize : q.size ≤ q.m_nMaxBuffer := (Nat.le_add_left _ _).trans q.fits
  rw [List.length_flatten] at hlength
  obtain ⟨m, hm, -⟩ := growth_of_block hblock _ hsize hlength
  rw [Fits, CUQueue.growth, hm]
  rfl

section Storing

variable {σ : Type} {core : Core σ} {queued : σ → List Msg}

/-- What has been collected is stored, one message like several. -/
theorem batchEnqueue_frames (hcore : core.Lawful queued) {ms : List Msg}
    (hms : (frames ms).length < 2 ^ 32) (s : σ) :
    ∃ e t, BatchEnqueue core ms.length (frames ms) s = .ok e t ∧
      (e = .QUEUE_OK → queued t = queued s ++ ms) := by
  match ms with
  | [] => exact ⟨_, s, rfl, fun _ ↦ (List.append_nil _).symm⟩
  | [m] =>
    have hm : m.buffer.length < 2 ^ 32 := by
      rw [frames_singleton, ← frame, length_frame] at hms
      omega
    have hpop : popFrame (frames [m]) = .ok m [] := by
      have hread := popFrame_decodes hm [] (by rwa [List.append_nil, frame, ← frames_singleton])
      rwa [List.append_nil, frame, ← frames_singleton] at hread
    rw [List.length_singleton, BatchEnqueue, if_neg one_ne_zero, if_pos rfl, hpop]
    dsimp only
    cases hresult : core.Enqueue m.idMessage m.buffer s with
    | mk index t =>
      cases index with
      | none => exact ⟨.QUEUE_ENQUEUING_FAILED, t, rfl, nofun⟩
      | some index => exact ⟨.QUEUE_OK, t, rfl, fun _ ↦ hcore.enqueue hresult⟩
  | m :: m' :: ms =>
    have hread := repeatRead_frames hms
    generalize hl : m :: m' :: ms = l at hread ⊢
    have hne : ¬ l.length = 0 ∧ ¬ l.length = 1 := by
      subst hl
      simp
    rw [BatchEnqueue, if_neg hne.1, if_neg hne.2]
    cases hstart : core.StartJob s with
    | mk started s₁ =>
      cases started with
      | false => exact ⟨.QUEUE_TRANS_COMMITTING_FAILED, s₁, rfl, nofun⟩
      | true =>
        dsimp only
        cases hbatch : core.BatchEnqueue l.length (frames l) s₁ with
        | mk index s₂ =>
          cases index with
          | none => exact ⟨.QUEUE_ENQUEUING_FAILED, core.AbortJob s₂, rfl, nofun⟩
          | some index =>
            dsimp only
            cases hend : core.EndJob s₂ with
            | mk ended t =>
              cases ended with
              | false => exact ⟨.QUEUE_TRANS_COMMITTING_FAILED, t, rfl, nofun⟩
              | true =>
                refine ⟨.QUEUE_OK, t, rfl, fun _ ↦ ?_⟩
                rw [hcore.endJob hend, hcore.batchEnqueue hread hbatch, hcore.startJob hstart]

/-- **Frames are right exactly if the buffers have room**: then the batch buffer of the transaction
is made of `m_count` frames, which are the messages in order, and they are stored once each. -/
theorem framing_iff (hcore : core.Lawful queued) (b : EmptyBuffer) (rs : List Request) :
    Framed core queued b rs ↔ AllFit b rs := by
  obtain ⟨hfit, hfault⟩ := processAll_start b rs
  constructor
  · rintro ⟨p, hok, -⟩
    by_contra hno
    rw [hfault hno] at hok
    cases hok
  · intro h
    obtain ⟨p, hok, hcontent, hcount, hlength⟩ := hfit h
    have hread := repeatRead_frames hlength
    refine ⟨p, hok, ?_, ?_, ?_⟩
    · rw [hcontent, hcount, hread]
    · rw [hcontent, hcount]
      exact batchEnqueue_frames hcore hlength
    · rw [hcontent, hcount]
      exact fun s index t h ↦ hcore.batchEnqueue hread h

end Storing

/-! ### Cases -/

/-- A core queue that takes everything. -/
def acceptAll : Core (List Msg) where
  StartJob s := (true, s)
  Enqueue id buffer s := (some s.length, s ++ [⟨id, buffer⟩])
  BatchEnqueue count c s :=
    match repeatRead popFrame count c with
    | .ok ms _ => (some s.length, s ++ ms)
    | _ => (none, s)
  EndJob s := (true, s)
  AbortJob s := s

theorem acceptAll_lawful : acceptAll.Lawful id where
  startJob h := by
    cases h
    rfl
  enqueue h := by
    cases h
    rfl
  batchEnqueue hread h := by
    simp only [acceptAll, hread] at h
    cases h
    rfl
  endJob h := by
    cases h
    rfl

/-- The buffer that `CScopeUQueue` makes. -/
def scopeBuffer : EmptyBuffer := ⟨.new 4096 4096, rfl⟩

/-- A batch of two messages, one without bytes, and a third message behind it. -/
theorem three_messages_framed :
    Framed acceptAll id scopeBuffer
      [.enqueueBatch scopeBuffer scopeBuffer (some [113]) [⟨⟨7, [1, 2]⟩, by decide⟩,
        ⟨⟨8, []⟩, by decide⟩], .enqueue scopeBuffer (some [113]) ⟨⟨9, [3]⟩, by decide⟩] := by
  have hblock : scopeBuffer.1.m_nBlockSize ∣ 2 ^ 31 := by decide
  refine (framing_iff acceptAll_lawful _ _).2 ⟨?_, fits_of_block hblock (by decide)⟩
  rintro r (_ | ⟨_, _ | ⟨_, _ | _⟩⟩)
  · exact ⟨fits_of_block hblock (by decide), fun _ ↦ fits_of_block hblock (by decide)⟩
  · exact fits_of_block hblock (by decide)

/-- A message of `n` bytes. -/
def zeros (n : ℕ) (h : n < 2 ^ 32) : Message := ⟨⟨0, List.replicate n 0⟩, by simpa using h⟩

/-- Two messages, of 2 gigabytes less 8 kilobytes and of 8 kilobytes: with the second one the
capacity of the batch buffer is to become 2^32 + 4096. -/
theorem two_gigabytes_not_framed :
    ¬ Framed acceptAll id scopeBuffer
      [.enqueue scopeBuffer none (zeros 0x7fffe000 (by decide)),
        .enqueue scopeBuffer none (zeros 0x2000 (by decide))] := by
  rintro ⟨p, hok, -⟩
  have hfault := (processAll_start scopeBuffer
    [.enqueue scopeBuffer none (zeros 0x7fffe000 (by decide)),
      .enqueue scopeBuffer none (zeros 0x2000 (by decide))]).2 fun hfit ↦ by
    have hbatch := hfit.2
    simp only [Fits, CUQueue.growth, List.flatMap_cons, List.flatMap_nil, Request.pushed, pieces,
      zeros, List.map_append, List.map_cons, List.map_nil, length_leBytes,
      List.length_replicate] at hbatch
    revert hbatch
    decide +kernel
  rw [hfault] at hok
  cases hok

end SocketPro.Queue.Framing
