import SocketPro.Buffer.Variant
import SocketPro.Buffer.CUQueue

/-!
# `CUQueue::Insert(const VARIANT&, position)`

The writer of `membuffer.cpp` (POSIX build). The tag goes to the position and the position advances
with what has been inserted, in every case but one: a `VT_BSTR` is written with `operator<<`, which
appends at the end of the buffer whatever the position is.

Elements of arrays of strings and of variants are pushed one by one when the position has reached
the end; before that they are collected in a buffer from the pool (`CScopeUQueue`) that is inserted
as a whole. That buffer is a parameter here, the capacity of a pooled buffer being whatever earlier
uses left it.

**What is inserted.** `insertVariant_inserts`: except for a `VT_BSTR` before the end, the writer
inserts the pieces of the value at the position.
-/

namespace SocketPro.Buffer

open Bytes Machine

/-- `operator<<(const char16_t*)`. -/
def pushBSTR (bstrVal : Option (List UInt16)) : Effect CUException CUQueue Unit :=
  match bstrVal with
  | none => pushBytes (leBytes 4 UQUEUE_NULL_LENGTH)
  | some us => do
    let size := 2 * us.length % 2 ^ 32
    pushBytes (leBytes 4 size)
    if size = 0 then pure () else pushBytes ((utf16Bytes us).take size)

/-- The loop over the elements of an array of strings. -/
def pushBSTRs : List (Option (List UInt16)) → Effect CUException CUQueue Unit
  | [] => pure ()
  | s :: ss => do
    pushBSTR s
    pushBSTRs ss

/-- Run a program on the buffer `su` of the pool and insert what it has collected. -/
def insertCollected (su : CUQueue) (collect : Effect CUException CUQueue Unit) (position : ℕ) :
    Effect CUException CUQueue Unit := fun q ↦
  match collect su with
  | .ok () su' => insertBytes su'.content position q
  | .throw e _ => .throw e q
  | .fault => .fault

/-- `Push` of elements where the position has reached the end, else `Insert` of all of them from a
buffer of the pool. -/
def insertElements (su : CUQueue) (push : Effect CUException CUQueue Unit) (position : ℕ) :
    Effect CUException CUQueue Unit := fun q ↦
  if q.size ≤ position then push q else insertCollected su push position q

/-- The part before the `switch (vtData.vt)`: the position is clamped and the tag goes there. -/
def insertTag (vt position : ℕ) (payload : ℕ → Effect CUException CUQueue Unit) :
    Effect CUException CUQueue Unit := fun q ↦
  let p := min position q.size
  (insertBytes (leBytes 2 vt) p >>= fun _ ↦ payload (p + 2)) q

mutual

/-- The `switch (vtData.vt)`, with the position behind the tag and the pooled buffer `su`. -/
def insertPayload (su : CUQueue) : VARIANT → ℕ → Effect CUException CUQueue Unit
  | .empty, _ => pure ()
  | .null, _ => pure ()
  | .scalar _ raw, p => insertBytes raw p
  -- The one case that forgets the position.
  | .bstr bstrVal, _ => pushBSTR bstrVal
  | .scalarArray t n data, p => do
    insertBytes (leBytes 4 n) p
    if n = 0 then pure () else insertBytes (data.take (n * t.size % 2 ^ 32)) (p + 4)
  | .bstrArray ss, p => do
    insertBytes (leBytes 4 ss.length) p
    if ss.length = 0 then pure () else insertElements su (pushBSTRs ss) (p + 4)
  | .variantArray vs, p => do
    insertBytes (leBytes 4 vs.length) p
    if vs.length = 0 then pure () else insertElements su (pushVariants su vs) (p + 4)
  | .unsupported _, _ => Effect.raise .serialization
  | .unsupportedArray _ n, p => do
    insertBytes (leBytes 4 n) p
    if n = 0 then pure () else Effect.raise .serialization

/-- The loop over the elements of an array of variants: `Push` is `Insert` at
`UQUEUE_END_POSTION`. -/
def pushVariants (su : CUQueue) : List VARIANT → Effect CUException CUQueue Unit
  | [] => pure ()
  | v :: vs => do
    insertTag v.vt 0xffffffff (insertPayload su v)
    pushVariants su vs

end

/-- `CUQueue::Insert(const VARIANT&, unsigned int)`, with the pooled buffer `su`. -/
def insertVariant (su : CUQueue) (vtData : VARIANT) (position : ℕ) :
    Effect CUException CUQueue Unit :=
  insertTag vtData.vt position (insertPayload su vtData)

/-- `CUQueue::Push(const CComVariant&)`. -/
def pushVariant (su : CUQueue) (vtData : VARIANT) : Effect CUException CUQueue Unit :=
  insertVariant su vtData 0xffffffff

/-! ### Strings -/

theorem CUQueue.size_le_end (q : CUQueue) : q.size ≤ 0xffffffff := by
  have hfits : q.m_nHeadPos + q.size ≤ q.m_nMaxBuffer := q.fits
  have hmax := q.max_lt
  omega

theorem pushBytes_inserts (q : CUQueue) (buffer : List UInt8) :
    Inserts q q.size [buffer] (pushBytes buffer q) :=
  Inserts.bytes (Nat.min_eq_right q.size_le_end)

/-- The size after an insert. -/
theorem CUQueue.size_of_insertAt {q q' : CUQueue} {p : ℕ} {xs : List UInt8}
    (h : q'.content = insertAt p xs q.content) : q'.size = q.size + xs.length := by
  rw [CUQueue.size, h, length_insertAt]
  rfl

/-- Appending in two steps. -/
theorem Inserts.append_end {q : CUQueue} {ps ps' : List (List UInt8)}
    {x : Effect CUException CUQueue Unit} {f : Unit → Effect CUException CUQueue Unit}
    (hx : Inserts q q.size ps (x q)) (hf : ∀ q' : CUQueue, Inserts q' q'.size ps' (f () q')) :
    Inserts q q.size (ps ++ ps') ((x >>= f) q) := by
  refine Inserts.append le_rfl hx fun q' hq' ↦ ?_
  rw [← CUQueue.size_of_insertAt hq']
  exact hf q'

/-- `operator<<` appends the length and the text, as long as the length in bytes has 32 bits. -/
theorem pushBSTR_inserts {s : Option (List UInt16)} (hs : (encodeBSTR s).length < 2 ^ 32)
    (q : CUQueue) : Inserts q q.size (bstrPieces s) (pushBSTR s q) := by
  cases s with
  | none => exact pushBytes_inserts q _
  | some us =>
    rw [encodeBSTR_some, List.length_append, length_utf16Bytes, length_leBytes] at hs
    have hmod : 2 * us.length % 2 ^ 32 = 2 * us.length := Nat.mod_eq_of_lt (by omega)
    have htake : (utf16Bytes us).take (2 * us.length) = utf16Bytes us :=
      List.take_of_length_le (length_utf16Bytes us).le
    unfold pushBSTR bstrPieces
    simp only [hmod, htake]
    by_cases hlen : us.length = 0
    · rw [if_pos hlen, hlen]
      exact Inserts.append_end (pushBytes_inserts q _) fun q' ↦ Inserts.nil
    · rw [if_neg hlen, if_neg (by omega)]
      show Inserts q q.size ([leBytes 4 (2 * us.length)] ++ [utf16Bytes us]) _
      exact Inserts.append_end (pushBytes_inserts q _) fun q' ↦ pushBytes_inserts q' _

theorem pushBSTRs_inserts {ss : List (Option (List UInt16))}
    (hss : (ss.flatMap bstrPieces).flatten.length < 2 ^ 32) (q : CUQueue) :
    Inserts q q.size (ss.flatMap bstrPieces) (pushBSTRs ss q) := by
  induction ss generalizing q with
  | nil => exact Inserts.nil
  | cons s ss ih =>
    rw [List.flatMap_cons, List.flatten_append, List.length_append] at hss
    have hs : (encodeBSTR s).length < 2 ^ 32 := lt_of_le_of_lt (Nat.le_add_right _ _) hss
    exact Inserts.append_end (pushBSTR_inserts hs q)
      (ih (lt_of_le_of_lt (Nat.le_add_left _ _) hss))

/-! ### Inserting at the end -/

/-- The count of an array, and its elements behind it. -/
theorem insertCount_inserts {q : CUQueue} {p n : ℕ} {ps : List (List UInt8)}
    {f : Effect CUException CUQueue Unit} (hp : p ≤ q.size) (hn : n = 0 → ps = [])
    (hf : ∀ q' : CUQueue, q'.content = insertAt p (leBytes 4 n) q.content → n ≠ 0 →
      Inserts q' (p + 4) ps (f q')) :
    Inserts q p (leBytes 4 n :: ps)
      ((insertBytes (leBytes 4 n) p >>= fun _ ↦ if n = 0 then pure () else f) q) := by
  show Inserts q p ([leBytes 4 n] ++ ps) _
  refine Inserts.append hp (Inserts.bytes (Nat.min_eq_left hp)) fun q' hq' ↦ ?_
  rw [List.flatten_singleton] at hq' ⊢
  rw [length_leBytes]
  by_cases h0 : n = 0
  · rw [if_pos h0, hn h0]
    exact Inserts.nil
  · rw [if_neg h0]
    exact hf q' hq' h0

/-- At the end of the buffer elements are pushed. -/
theorem insertElements_end {su q : CUQueue} {push : Effect CUException CUQueue Unit} {position : ℕ}
    (h : q.size ≤ position) : insertElements su push position q = push q := if_pos h

/-- The cases that behave alike wherever the position is. -/
theorem insertPayload_scalarArray {su q : CUQueue} {t : ScalarVT} {n p : ℕ} {data : List UInt8}
    (hp : p ≤ q.size) (hdata : data.length = n * t.size) (hlen : data.length < 2 ^ 32) :
    Inserts q p (VARIANT.scalarArray t n data).pieces.tail
      (insertPayload su (.scalarArray t n data) p q) := by
  have hpieces : (VARIANT.scalarArray t n data).pieces.tail =
      leBytes 4 n :: if n = 0 then [] else [data] := by
    rw [VARIANT.pieces]
    split
    · next h => rw [h]; rfl
    · rfl
  rw [hpieces, insertPayload]
  refine insertCount_inserts hp (fun h ↦ if_pos h) fun q' hq' hn ↦ ?_
  have htake : data.take (n * t.size % 2 ^ 32) = data := by
    rw [← hdata, Nat.mod_eq_of_lt hlen, List.take_length]
  have hsize := CUQueue.size_of_insertAt hq'
  rw [length_leBytes] at hsize
  rw [if_neg hn, htake]
  exact Inserts.bytes (Nat.min_eq_left (by omega))

theorem insertTag_inserts {q : CUQueue} {vt position p : ℕ} {ps : List (List UInt8)}
    {payload : ℕ → Effect CUException CUQueue Unit} (hp : min position q.size = p)
    (h : ∀ q' : CUQueue, q'.content = insertAt p (leBytes 2 vt) q.content →
      Inserts q' (p + 2) ps (payload (p + 2) q')) :
    Inserts q p (leBytes 2 vt :: ps) (insertTag vt position payload q) := by
  have hle : p ≤ q.size := hp ▸ Nat.min_le_right _ _
  show Inserts q p ([leBytes 2 vt] ++ ps)
    ((insertBytes (leBytes 2 vt) (min position q.size) >>= fun _ ↦
      payload (min position q.size + 2)) q)
  rw [hp]
  refine Inserts.append hle (Inserts.bytes (Nat.min_eq_left hle)) fun q' hq' ↦ ?_
  rw [List.flatten_singleton] at hq' ⊢
  rw [length_leBytes]
  exact h q' hq'

/-- A part of a value is not longer than the whole. -/
theorem length_payload_lt {v : VARIANT} (h : v.encode.length < 2 ^ 32) :
    v.payload.length < 2 ^ 32 := by
  rw [VARIANT.encode_eq, List.length_append] at h
  omega

/-- The data of a scalar array is a part of its bytes on the wire. -/
theorem length_data_le {t : ScalarVT} {n : ℕ} {data : List UInt8} (h : data.length = n * t.size) :
    data.length ≤ (VARIANT.scalarArray t n data).payload.length := by
  rw [VARIANT.payload, VARIANT.pieces]
  split
  · next h0 =>
    rw [h, h0, Nat.zero_mul]
    exact Nat.zero_le _
  · simp

theorem insertPayload_bstrArray_end {su q : CUQueue} {ss : List (Option (List UInt16))}
    (hlen : (VARIANT.bstrArray ss).payload.length < 2 ^ 32) :
    Inserts q q.size (VARIANT.bstrArray ss).pieces.tail
      (insertPayload su (.bstrArray ss) q.size q) := by
  have hss : (ss.flatMap bstrPieces).flatten.length < 2 ^ 32 :=
    lt_of_le_of_lt (List.length_append ▸ Nat.le_add_left _ _) hlen
  refine insertCount_inserts le_rfl (fun h ↦ ?_) fun q' hq' _ ↦ ?_
  · rw [List.length_eq_zero_iff.1 h]
    rfl
  · have hsize := CUQueue.size_of_insertAt hq'
    rw [length_leBytes] at hsize
    rw [← hsize, insertElements_end le_rfl]
    exact pushBSTRs_inserts hss q'

mutual

/-- At the end of the buffer the writer appends the pieces of the value. -/
theorem insertPayload_end (su : CUQueue) : ∀ (v : VARIANT), v.WellFormed →
    v.payload.length < 2 ^ 32 → ∀ q : CUQueue,
      Inserts q q.size v.pieces.tail (insertPayload su v q.size q)
  | .empty, _, _, _ => Inserts.nil
  | .null, _, _, _ => Inserts.nil
  | .scalar _ _, _, _, _ => Inserts.bytes (Nat.min_self _)
  | .bstr _, _, hlen, q => pushBSTR_inserts hlen q
  | .scalarArray t n data, hv, hlen, q => by
    have hdata : data.length = n * t.size := by
      cases hv with
      | scalarArray _ hdata => exact hdata
    refine insertPayload_scalarArray le_rfl hdata ?_
    exact lt_of_le_of_lt (length_data_le hdata) hlen
  | .bstrArray ss, _, hlen, q => insertPayload_bstrArray_end hlen
  | .variantArray vs, hv, hlen, q => by
    have hvs : ∀ v ∈ vs, v.WellFormed := by
      cases hv with
      | variantArray _ hvs => exact hvs
    have helems : (VARIANT.encodeElements vs).length < 2 ^ 32 :=
      lt_of_le_of_lt (List.length_append ▸ Nat.le_add_left _ _) hlen
    refine insertCount_inserts le_rfl (fun h ↦ ?_) fun q' hq' _ ↦ ?_
    · rw [List.length_eq_zero_iff.1 h]
      rfl
    · have hsize := CUQueue.size_of_insertAt hq'
      rw [length_leBytes] at hsize
      rw [← hsize, insertElements_end le_rfl]
      exact pushVariants_inserts su vs hvs helems q'
  | .unsupported _, hv, _, _ => nomatch hv
  | .unsupportedArray _ _, hv, _, _ => nomatch hv

/-- The loop appends the pieces of the elements. -/
theorem pushVariants_inserts (su : CUQueue) : ∀ (vs : List VARIANT), (∀ v ∈ vs, v.WellFormed) →
    (VARIANT.encodeElements vs).length < 2 ^ 32 → ∀ q : CUQueue,
      Inserts q q.size (VARIANT.elementPieces vs) (pushVariants su vs q)
  | [], _, _, _ => Inserts.nil
  | v :: vs, hvs, hlen, q => by
    rw [VARIANT.encodeElements_cons, List.length_append] at hlen
    have hhead : v.encode.length < 2 ^ 32 := by omega
    have htail : (VARIANT.encodeElements vs).length < 2 ^ 32 := by omega
    rw [VARIANT.elementPieces, VARIANT.pieces_eq]
    refine Inserts.append_end ?_ (pushVariants_inserts su vs
      (fun w hw ↦ hvs w (List.mem_cons_of_mem v hw)) htail)
    refine insertTag_inserts (Nat.min_eq_right q.size_le_end) fun q' hq' ↦ ?_
    have hsize := CUQueue.size_of_insertAt hq'
    rw [length_leBytes] at hsize
    rw [← hsize]
    exact insertPayload_end su v (hvs v List.mem_cons_self) (length_payload_lt hhead) q'

end

/-- `Push` appends the pieces of the value. -/
theorem pushVariant_inserts (su : CUQueue) {v : VARIANT} (hv : v.WellFormed)
    (hlen : v.encode.length < 2 ^ 32) (q : CUQueue) :
    Inserts q q.size v.pieces (pushVariant su v q) := by
  rw [VARIANT.pieces_eq]
  refine insertTag_inserts (Nat.min_eq_right q.size_le_end) fun q' hq' ↦ ?_
  have hsize := CUQueue.size_of_insertAt hq'
  rw [length_leBytes] at hsize
  rw [← hsize]
  exact insertPayload_end su v hv (length_payload_lt hlen) q'

/-! ### Inserting before the end -/

namespace VARIANT

/-- What is pushed into the pooled buffer when the position is before the end. -/
def innerPieces : VARIANT → List (List UInt8)
  | bstrArray ss => ss.flatMap bstrPieces
  | variantArray vs => elementPieces vs
  | _ => []

/-- What is then inserted into the buffer itself. -/
def outerPieces (v : VARIANT) : List (List UInt8) :=
  match v with
  | bstrArray ss =>
    leBytes 2 v.vt :: leBytes 4 ss.length ::
      if ss.length = 0 then [] else [v.innerPieces.flatten]
  | variantArray vs =>
    leBytes 2 v.vt :: leBytes 4 vs.length ::
      if vs.length = 0 then [] else [v.innerPieces.flatten]
  | _ => v.pieces

theorem flatten_outerPieces (v : VARIANT) : v.outerPieces.flatten = v.encode := by
  cases v with
  | bstrArray ss =>
    rw [outerPieces, encode, pieces]
    split
    · next h =>
      rw [List.length_eq_zero_iff.1 h]
      rfl
    · simp [innerPieces, vt]
  | variantArray vs =>
    rw [outerPieces, encode, pieces]
    split
    · next h =>
      rw [List.length_eq_zero_iff.1 h]
      rfl
    · simp [innerPieces, vt]
  | _ => rfl

end VARIANT

/-- Every capacity that is computed while `v` is written suffices for what is copied: on the way
into the pooled buffer and into the buffer itself before the end, into the buffer piece by piece
at the end. -/
def RoomFor (su q : CUQueue) (p : ℕ) (v : VARIANT) : Prop :=
  if p < q.size then (su.growth v.innerPieces).isSome ∧ (q.growth v.outerPieces).isSome
  else (q.growth v.pieces).isSome

instance (su q : CUQueue) (p : ℕ) (v : VARIANT) : Decidable (RoomFor su q p v) := by
  unfold RoomFor
  infer_instance

/-- The elements are collected in an empty buffer and inserted as a whole. -/
theorem insertElements_middle {su q : CUQueue} {push : Effect CUException CUQueue Unit}
    {ps : List (List UInt8)} {position : ℕ} (hsu : su.content = [])
    (hpush : Inserts su su.size ps (push su)) (hp : position < q.size) :
    insertElements su push position q =
      if (su.growth ps).isSome then insertBytes ps.flatten position q else .fault := by
  have hq : insertElements su push position q = insertCollected su push position q :=
    if_neg (Nat.not_le.2 hp)
  rw [hq, insertCollected]
  rw [Inserts, Reaches] at hpush
  cases hm : su.growth ps with
  | none =>
    rw [hm] at hpush
    rw [hpush]
    rfl
  | some m =>
    rw [hm] at hpush
    obtain ⟨su', hsu', hcontent, -⟩ := hpush
    have hcollected : su'.content = ps.flatten := by
      rw [hcontent, CUQueue.size, insertAt_length, hsu, List.nil_append]
    rw [hsu', ← hcollected]
    rfl

section Middle

variable {su q : CUQueue} {p n : ℕ} {ps : List (List UInt8)}
  {push : Effect CUException CUQueue Unit}

/-- The count, and the collected elements if the pooled buffer has room for them. -/
theorem insertCount_middle (hsu : su.content = []) (hpush : Inserts su su.size ps (push su))
    (hp : p < q.size) (hroom : (su.growth ps).isSome) :
    Inserts q p (leBytes 4 n :: if n = 0 then [] else [ps.flatten])
      ((insertBytes (leBytes 4 n) p >>= fun _ ↦
        if n = 0 then pure () else insertElements su push (p + 4)) q) := by
  refine insertCount_inserts hp.le (fun h ↦ if_pos h) fun q' hq' hn ↦ ?_
  have hsize := CUQueue.size_of_insertAt hq'
  rw [length_leBytes] at hsize
  rw [if_neg hn, insertElements_middle hsu hpush (by omega), if_pos hroom]
  exact Inserts.bytes (Nat.min_eq_left (by omega))

theorem insertCount_middle_fault (hsu : su.content = []) (hpush : Inserts su su.size ps (push su))
    (hp : p < q.size) (hroom : ¬ (su.growth ps).isSome) (hn : n ≠ 0) :
    (insertBytes (leBytes 4 n) p >>= fun _ ↦
      if n = 0 then pure () else insertElements su push (p + 4)) q = .fault := by
  refine (Inserts.bytes (Nat.min_eq_left hp.le)).bind_fault fun q' hq' ↦ ?_
  rw [List.flatten_singleton] at hq'
  have hsize := CUQueue.size_of_insertAt hq'
  rw [length_leBytes] at hsize
  rw [if_neg hn, insertElements_middle hsu hpush (by omega), if_neg hroom]

end Middle

/-- Before the end the writer inserts the outer pieces, except for a string. -/
theorem insertPayload_middle {su q : CUQueue} {p : ℕ} {v : VARIANT} (hsu : su.content = [])
    (hv : v.WellFormed) (hlen : v.payload.length < 2 ^ 32) (hb : ∀ s, v ≠ .bstr s)
    (hp : p < q.size) :
    ((su.growth v.innerPieces).isSome →
      Inserts q p v.outerPieces.tail (insertPayload su v p q)) ∧
    (¬ (su.growth v.innerPieces).isSome → insertPayload su v p q = .fault) := by
  cases hv with
  | empty => exact ⟨fun _ ↦ Inserts.nil, fun h ↦ absurd rfl h⟩
  | null => exact ⟨fun _ ↦ Inserts.nil, fun h ↦ absurd rfl h⟩
  | scalar _ => exact ⟨fun _ ↦ Inserts.bytes (Nat.min_eq_left hp.le), fun h ↦ absurd rfl h⟩
  | bstr _ => exact absurd rfl (hb _)
  | scalarArray hn hdata =>
    have hshort := lt_of_le_of_lt (length_data_le hdata) hlen
    exact ⟨fun _ ↦ insertPayload_scalarArray hp.le hdata hshort, fun h ↦ absurd rfl h⟩
  | @bstrArray ss hn hss =>
    have hshort : (ss.flatMap bstrPieces).flatten.length < 2 ^ 32 :=
      lt_of_le_of_lt (List.length_append ▸ Nat.le_add_left _ _) hlen
    have hpush := pushBSTRs_inserts hshort su
    refine ⟨insertCount_middle hsu hpush hp, fun hroom ↦ ?_⟩
    refine insertCount_middle_fault hsu hpush hp hroom fun h0 ↦ hroom ?_
    rw [List.length_eq_zero_iff.1 h0]
    rfl
  | @variantArray vs hn hvs =>
    have hshort : (VARIANT.encodeElements vs).length < 2 ^ 32 :=
      lt_of_le_of_lt (List.length_append ▸ Nat.le_add_left _ _) hlen
    have hpush := pushVariants_inserts su vs hvs hshort su
    refine ⟨insertCount_middle hsu hpush hp, fun hroom ↦ ?_⟩
    refine insertCount_middle_fault hsu hpush hp hroom fun h0 ↦ hroom ?_
    rw [List.length_eq_zero_iff.1 h0]
    rfl

/-- A string before the end: the tag goes to the position, the text to the end of the buffer. -/
theorem insertVariant_bstr {su q : CUQueue} {p : ℕ} {s : Option (List UInt16)}
    (hlen : (encodeBSTR s).length < 2 ^ 32) (hp : p ≤ q.size) :
    Reaches q (VARIANT.bstr s).pieces (insertAt p (leBytes 2 VT_BSTR) q.content ++ encodeBSTR s)
      (insertVariant su (.bstr s) p q) := by
  have hmin : min p q.size = p := Nat.min_eq_left hp
  show Reaches q ([leBytes 2 VT_BSTR] ++ bstrPieces s) _
    ((insertBytes (leBytes 2 VT_BSTR) (min p q.size) >>= fun _ ↦ pushBSTR s) q)
  rw [hmin]
  have htag : Inserts q p [leBytes 2 VT_BSTR] (insertBytes (leBytes 2 VT_BSTR) p q) :=
    Inserts.bytes hmin
  rw [Inserts, List.flatten_singleton] at htag
  refine Reaches.append (length_insertAt _ _ _) htag fun q' hq' ↦ ?_
  have hpush := pushBSTR_inserts hlen q'
  rwa [Inserts, CUQueue.size, insertAt_length, hq'] at hpush

/-- **What the writer does**, except with a string before the end: if there is room, the bytes of
the value are inserted at the position. -/
theorem insertVariant_iff {su q : CUQueue} {p : ℕ} {v : VARIANT} (hsu : su.content = [])
    (hv : v.WellFormed) (hlen : v.encode.length < 2 ^ 32) (hp : p ≤ q.size)
    (hb : (∀ s, v ≠ .bstr s) ∨ p = q.size) :
    (∃ q', insertVariant su v p q = .ok () q' ∧ q'.content = insertAt p v.encode q.content) ↔
      RoomFor su q p v := by
  have hshort := length_payload_lt hlen
  have hmin : min p q.size = p := Nat.min_eq_left hp
  by_cases hend : p = q.size
  · -- At the end the pieces are appended.
    have hinserts : Inserts q p v.pieces (insertVariant su v p q) := by
      rw [VARIANT.pieces_eq]
      refine insertTag_inserts hmin fun q' hq' ↦ ?_
      have hsize := CUQueue.size_of_insertAt hq'
      rw [length_leBytes, ← hend] at hsize
      rw [← hsize]
      exact insertPayload_end su v hv hshort q'
    rw [RoomFor, if_neg (by omega)]
    exact hinserts.ok_iff.trans (and_iff_left rfl)
  · -- Before the end elements are collected first.
    have hlt : p < q.size := lt_of_le_of_ne hp hend
    have hb' := hb.resolve_right hend
    have houter : v.outerPieces = leBytes 2 v.vt :: v.outerPieces.tail := by
      cases v with
      | scalarArray t n data => exact VARIANT.pieces_eq _
      | _ => rfl
    have hmiddle : ∀ q' : CUQueue, q'.content = insertAt p (leBytes 2 v.vt) q.content →
        p + 2 < q'.size := by
      intro q' hq'
      have hsize := CUQueue.size_of_insertAt hq'
      rw [length_leBytes] at hsize
      omega
    rw [RoomFor, if_pos hlt]
    by_cases hroom : (su.growth v.innerPieces).isSome
    · have hinserts : Inserts q p v.outerPieces (insertVariant su v p q) := by
        rw [houter]
        exact insertTag_inserts hmin fun q' hq' ↦
          (insertPayload_middle hsu hv hshort hb' (hmiddle q' hq')).1 hroom
      rw [← VARIANT.flatten_outerPieces, hinserts.ok_iff]
      exact ⟨fun h ↦ ⟨hroom, h.1⟩, fun h ↦ ⟨h.2, rfl⟩⟩
    · have hfault : insertVariant su v p q = .fault := by
        show (insertBytes (leBytes 2 v.vt) (min p q.size) >>= fun _ ↦
          insertPayload su v (min p q.size + 2)) q = .fault
        rw [hmin]
        refine (Inserts.bytes hmin).bind_fault fun q' hq' ↦ ?_
        rw [List.flatten_singleton] at hq'
        exact (insertPayload_middle hsu hv hshort hb' (hmiddle q' hq')).2 hroom
      refine iff_of_false ?_ fun h ↦ hroom h.1
      rintro ⟨q', hq', -⟩
      rw [hfault] at hq'
      cases hq'

end SocketPro.Buffer
