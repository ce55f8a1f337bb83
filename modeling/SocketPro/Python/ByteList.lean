import SocketPro.Python.QueueMethods

/-!
# The Python `CUQueue` as a byte list

`byteList` says what each command does to a list of bytes: what is written comes at the end, what is
read is taken from the front, and a read that finds too few bytes raises and leaves nothing.
`Sound q t` says that the content of a queue is the list `t` and lies in its bytearray.

* `command_agrees` — a command does the same to a queue and to its list. `_ensure_` makes room for
  every write of less than 2^31 bytes, although the room is computed with floats (`le_addedSize`);
* `bytearray_is_byte_list` — **so does every sequence of methods**, for several queues, whatever
  code calls them (`Script.perform_agrees`).
-/

namespace SocketPro.Python.ByteQueue

open Block Bytes Machine

/-- What each command does to a list of bytes. -/
def byteList : Handler Command Command.Result Raised (List UInt8)
  | .pack _ (.error e) => Effect.raise (.error e)
  | .pack _ (.ok data) => fun t ↦ .ok () (t ++ data.1)
  | .push bytes length => fun t ↦ .ok () (t ++ bytes.take length)
  | .take size => fun t ↦
    if t.length < size then .throw invalidData [] else .ok (t.take size) (t.drop size)
  | .raise e => Effect.raise (.error e)

/-- The resulting size is below 2^31. A text that is too long for its format is not as long as no
memory could hold it. -/
def Room : Command → List UInt8 → Prop
  | .pack size (.ok _), t => t.length + size < 2 ^ 31
  | .pack size (.error _), _ => size ≤ 2 ^ 50
  | .push bytes length, t => t.length + min length bytes.length < 2 ^ 31
  | _, _ => True

instance : ∀ c t, Decidable (Room c t)
  | .pack size (.ok _), t => inferInstanceAs (Decidable (t.length + size < 2 ^ 31))
  | .pack size (.error _), _ => inferInstanceAs (Decidable (size ≤ 2 ^ 50))
  | .push bytes length, t => inferInstanceAs (Decidable (t.length + min length bytes.length < 2 ^ 31))
  | .take _, _ => .isTrue trivial
  | .raise _, _ => .isTrue trivial

/-- A read finds too few bytes. -/
def Short : Command → List UInt8 → Prop
  | .take size, t => t.length < size
  | _, _ => False

/-! ### One command -/

/-- The content lies in the bytearray and is the list, and there is a size of blocks. -/
structure Sound (q : CUQueue) (t : List UInt8) : Prop extends q.Holds t where
  block_pos : 0 < q.m_blockSize

variable {q : CUQueue} {t : List UInt8} {n : ℕ}

/-- **`Realloc`** moves the content to the front of a bytearray of the new size. -/
theorem realloc_sound (h : Sound q t) (hpos : 0 < n) (hn : t.length ≤ n) :
    Sound (Realloc n q) t ∧ (Realloc n q).m_bytes.length = n ∧
      (Realloc n q).m_position + (Realloc n q).m_len = t.length := by
  have hlen := h.length
  have hnpos : ¬ (n : ℤ) ≤ 0 := by omega
  have hkept : min q.m_len n = q.m_len := Nat.min_eq_left (by omega)
  have hrealloc : Realloc n q = { q with
      m_bytes := slice q.m_position q.m_len q.m_bytes ++ List.replicate (n - q.m_len) 0
      m_position := 0 } := by
    simp only [Realloc, if_neg hnpos, Int.toNat_natCast, hkept]
  obtain ⟨hlength, hholds⟩ := h.toHolds.moved (n := n) (by omega)
  rw [hrealloc]
  refine ⟨⟨hholds, h.block_pos⟩, hlength, ?_⟩
  show 0 + q.m_len = _
  omega

/-- **`_ensure_`** makes room behind the content. -/
theorem ensure_sound (h : Sound q t) (hn : n ≤ 2 ^ 50) :
    Sound (ensure n q) t ∧
      (ensure n q).m_position + (ensure n q).m_len + n ≤ (ensure n q).m_bytes.length := by
  have hfits := h.fits
  have hlen := h.length
  have htail : q.TailSize = (q.m_bytes.length : ℤ) - q.m_len - q.m_position := rfl
  rw [ensure]
  split_ifs with hshort
  · have hadded : (n - q.TailSize).toNat ≤ addedSize (n - q.TailSize).toNat q.m_blockSize :=
      le_addedSize (by omega) h.block_pos
    generalize addedSize (n - q.TailSize).toNat q.m_blockSize = added at hadded ⊢
    have hcast : (q.m_bytes.length : ℤ) + added = (q.m_bytes.length + added : ℕ) := by
      rw [Nat.cast_add]
    rw [hcast]
    obtain ⟨hsound, hlength, hend⟩ :=
      realloc_sound h (n := q.m_bytes.length + added) (by omega) (by omega)
    refine ⟨hsound, ?_⟩
    rw [hlength, hend]
    omega
  · exact ⟨h, by omega⟩

/-- **What each command does to a queue it does to the list.** -/
theorem command_agrees (c : Command) (q : CUQueue) (t : List UInt8) (h : Sound q t)
    (hroom : Room c t) : (memory c q).Agree Sound (byteList c t) := by
  cases c with
  | pack size data =>
    have hsize : size ≤ 2 ^ 50 := by
      cases data with
      | ok data =>
        have hlt : t.length + size < 2 ^ 31 := hroom
        omega
      | error e => exact hroom
    obtain ⟨hsound, hfits⟩ := ensure_sound h hsize
    cases data with
    | ok data =>
      obtain ⟨data, rfl⟩ := data
      rw [show memory (.pack data.length (.ok ⟨data, rfl⟩)) q = _ from if_neg (Nat.not_lt.2 hfits)]
      exact ⟨rfl, hsound.toHolds.packed hfits, hsound.block_pos⟩
    | error e =>
      rw [show memory (.pack size (.error e)) q = _ from if_neg (Nat.not_lt.2 hfits)]
      exact ⟨rfl, hsound⟩
  | push bytes length =>
    have hlt : t.length + min length bytes.length < 2 ^ 31 := hroom
    obtain ⟨hsound, -⟩ := ensure_sound h (n := min length bytes.length) (by omega)
    have hpushed := hsound.toHolds.pushed (Nat.min_le_right length bytes.length)
    rw [← List.take_eq_take_min] at hpushed
    exact ⟨rfl, hpushed, hsound.block_pos⟩
  | take size =>
    have hlen := h.length
    by_cases hshort : t.length < size
    · have hqueue : memory (.take size) q =
          .throw invalidData { q with m_len := 0, m_position := 0 } :=
        Effect.bind_throw (if_pos (by omega))
      rw [hqueue, show byteList (.take size) t = _ from if_pos hshort]
      exact ⟨rfl, ⟨Nat.zero_le _, slice_zero⟩, h.block_pos⟩
    · have hqueue : memory (.take size) q =
          .ok (slice q.m_position size q.m_bytes) (set size q) :=
        Effect.bind_ok (if_neg (by omega))
      rw [hqueue, show byteList (.take size) t = _ from if_neg hshort]
      exact ⟨h.front (by omega), h.toHolds.taken (by omega), h.block_pos⟩
  | raise e => exact ⟨rfl, h⟩

/-- A read that finds too few bytes raises, and nothing is left. -/
theorem take_short (c : Command) (t : List UInt8) (h : Short c t) :
    ∃ t', byteList c t = .throw invalidData t' ∧ t' = [] := by
  cases c with
  | take size => exact ⟨[], if_pos h, rfl⟩
  | pack | push | raise => exact h.elim

/-! ### The other methods -/

theorem discard_sound (h : Sound q t) (len : ℕ) :
    (Discard len q).1 = min len t.length ∧ Sound (Discard len q).2 (t.drop len) := by
  have hlen := h.length
  have hdrop : t.drop len = t.drop (min len q.m_len) := by
    rcases Nat.le_total len q.m_len with hle | hle
    · rw [Nat.min_eq_left hle]
    · rw [Nat.min_eq_right hle, List.drop_of_length_le (by omega), List.drop_of_length_le hlen.le]
  refine ⟨by rw [hlen]; rfl, ?_, h.block_pos⟩
  rw [hdrop]
  exact h.toHolds.taken (by omega)

/-- What `SetSize` does to a list. -/
def cut (size : ℤ) : Effect Raised (List UInt8) Unit := fun t ↦
  if size < 0 then .throw (.error (.ValueError "Bad new size")) t else .ok () (t.take size.toNat)

theorem setSize_agrees (h : Sound q t) {size : ℤ} (hsize : size ≤ t.length) :
    (SetSize size q).Agree Sound (cut size t) := by
  have hfits := h.fits
  have hlen := h.length
  rw [SetSize, cut]
  by_cases hneg : size < 0
  · rw [if_neg (by omega), if_pos (.inl hneg), if_pos hneg]
    exact ⟨rfl, h⟩
  rw [if_neg hneg]
  by_cases hzero : size = 0
  · subst hzero
    rw [if_pos rfl]
    exact ⟨rfl, ⟨Nat.zero_le _, slice_zero⟩, h.block_pos⟩
  · have hle : size.toNat ≤ t.length := by omega
    rw [if_neg hzero, if_neg (by omega)]
    refine ⟨rfl, ⟨?_, h.front hle⟩, h.block_pos⟩
    show q.m_position + size.toNat ≤ q.m_bytes.length
    omega

theorem empty_sound (h : Sound q t) : Sound (Empty q) [] :=
  ⟨⟨Nat.le_refl _, slice_zero⟩, h.block_pos⟩

/-- The bytes that a queue is made with. -/
def Constructor.content : Constructor → List UInt8
  | .capacity _ _ => []
  | .bytes data _ => data

theorem orDefault_pos (size : ℤ) : 0 < orDefault size := by
  rw [orDefault]
  split_ifs <;> omega

theorem make_sound (c : Constructor) : Sound c.make c.content := by
  cases c with
  | capacity n blockSize =>
    exact ⟨⟨Nat.zero_le _, slice_zero⟩, orDefault_pos blockSize⟩
  | bytes data blockSize =>
    refine ⟨⟨(Nat.zero_add _).le, slice_all⟩, orDefault_pos blockSize⟩

/-! ### Every sequence of methods -/

section Family

variable {ι : Type} [DecidableEq ι] (toSingle : UInt64 → Option UInt32)

/-- What an action does to lists of bytes. -/
def listStep (t : ι → List UInt8) : Action ι → Option (Result × (ι → List UInt8))
  | .on i call => (resultOf ((call.method toSingle).perform byteList (t i))).map fun r ↦
    (r.1, Function.update t i r.2)
  | .discard i len => some (.returned (.int (min len (t i).length : ℕ)),
      Function.update t i ((t i).drop len))
  | .setSize i size => (resultOf ((cut size >>= fun _ ↦ pure .null) (t i))).map fun r ↦
    (r.1, Function.update t i r.2)
  | .realloc i _ => some (.returned .null, Function.update t i (t i))
  | .empty i => some (.returned .null, Function.update t i [])
  | .swap i q => some (.returned .null, Function.update (Function.update t i (t q)) q (t i))

/-- A length is a number of bytes, or that of a null. -/
def Call.Counts : Call → Prop
  | PopBytes length => -1 ≤ length
  | _ => True

instance : ∀ call : Call, Decidable call.Counts := fun call ↦ by
  cases call <;> unfold Call.Counts <;> infer_instance

/-- What may be done: the resulting sizes are below 2^31, and a size that is set or a capacity fits
the content. -/
def InDomain (t : ι → List UInt8) : Action ι → Prop
  | .on i call => (call.method toSingle).Admits byteList Room (t i) ∧ call.Counts
  | .setSize i size => size ≤ (t i).length
  | .realloc i newSize => max 1 (t i).length ≤ newSize
  | .discard _ _ | .empty _ | .swap _ _ => True

instance (t : ι → List UInt8) (a : Action ι) : Decidable (InDomain toSingle t a) := by
  cases a <;> unfold InDomain <;> infer_instance

variable {toSingle}

/-- Outcomes that agree have one result. -/
theorem resultOf_agrees {x : Outcome Raised CUQueue Answer} {y : Outcome Raised (List UInt8) Answer}
    (h : x.Agree Sound y) :
    ∃ r q t, resultOf x = some (r, q) ∧ resultOf y = some (r, t) ∧ Sound q t := by
  cases hy : y with
  | ok a t =>
    obtain ⟨q, hx, hsound⟩ := h.of_ok hy
    rw [hx]
    exact ⟨_, q, t, rfl, rfl, hsound⟩
  | throw e t =>
    obtain ⟨q, hx, hsound⟩ := h.of_throw hy
    rw [hx]
    exact ⟨_, q, t, rfl, rfl, hsound⟩
  | fault =>
    rw [hy] at h
    cases x <;> exact h.elim

variable {s : ι → CUQueue} {t : ι → List UInt8}

/-- What holds of each queue and its list holds after one of them is changed. -/
theorem update_sound {i : ι} {q : CUQueue} {u : List UInt8} (h : ∀ i, Sound (s i) (t i))
    (hq : Sound q u) (j : ι) : Sound (Function.update s i q j) (Function.update t i u j) := by
  by_cases hj : j = i
  · subst hj
    rwa [Function.update_self, Function.update_self]
  · rw [Function.update_of_ne hj, Function.update_of_ne hj]
    exact h j

/-- The programs on a queue and on its list, as an action on one of several. -/
theorem update_agrees {x : Effect Raised CUQueue Answer} {y : Effect Raised (List UInt8) Answer}
    {i : ι} (h : ∀ i, Sound (s i) (t i)) (hagree : (x (s i)).Agree Sound (y (t i))) :
    ∃ r s' t', ((resultOf (x (s i))).map fun r ↦ (r.1, Function.update s i r.2)) = some (r, s') ∧
      ((resultOf (y (t i))).map fun r ↦ (r.1, Function.update t i r.2)) = some (r, t') ∧
      ∀ i, Sound (s' i) (t' i) := by
  obtain ⟨r, q, u, hx, hy, hsound⟩ := resultOf_agrees hagree
  rw [hx, hy]
  exact ⟨r, _, _, rfl, rfl, update_sound h hsound⟩

/-- **One action.** -/
theorem step_agrees (h : ∀ i, Sound (s i) (t i)) (a : Action ι) (hdom : InDomain toSingle t a) :
    ∃ r s' t', step toSingle s a = some (r, s') ∧ listStep toSingle t a = some (r, t') ∧
      ∀ i, Sound (s' i) (t' i) := by
  cases a with
  | on i call =>
    exact update_agrees h (Script.perform_agrees command_agrees (call.method toSingle) (h i) hdom.1)
  | discard i len =>
    obtain ⟨hlen, hsound⟩ := discard_sound (h i) len
    refine ⟨_, _, _, rfl, ?_, update_sound h hsound⟩
    rw [hlen]
    rfl
  | setSize i size =>
    have hagree := setSize_agrees (h i) hdom
    refine update_agrees (x := SetSize size >>= fun _ ↦ pure .null)
      (y := cut size >>= fun _ ↦ pure .null) h ?_
    cases hy : cut size (t i) with
    | ok a u =>
      obtain ⟨q, hx, hsound⟩ := hagree.of_ok hy
      rw [Effect.bind_ok hx, Effect.bind_ok hy]
      exact ⟨rfl, hsound⟩
    | throw e u =>
      obtain ⟨q, hx, hsound⟩ := hagree.of_throw hy
      rw [Effect.bind_throw hx, Effect.bind_throw hy]
      exact ⟨rfl, hsound⟩
    | fault =>
      rw [hy] at hagree
      cases hx : SetSize size (s i) <;> rw [hx] at hagree <;> exact hagree.elim
  | realloc i newSize =>
    have hsize : (max 1 (t i).length : ℕ) ≤ newSize := hdom
    obtain ⟨n, rfl⟩ := Int.eq_ofNat_of_zero_le (le_trans (by omega) hsize)
    exact ⟨_, _, _, rfl, rfl, update_sound h (realloc_sound (h i) (by omega) (by omega)).1⟩
  | empty i => exact ⟨_, _, _, rfl, rfl, update_sound h (empty_sound (h i))⟩
  | swap i q => exact ⟨_, _, _, rfl, rfl, update_sound (update_sound h (h q)) (h i)⟩

/-- A list has room for everything. -/
theorem byteList_ne_noRoom (c : Command) (t : List UInt8) (e : Raised) (t' : List UInt8)
    (h : byteList c t = .throw e t') : ¬ e = .noRoom := by
  rintro rfl
  cases c with
  | pack size data => cases data <;> cases h
  | push bytes length => cases h
  | take size =>
    have htake : (if t.length < size then .throw invalidData [] else
      .ok (t.take size) (t.drop size) : Outcome Raised _ _) = .throw .noRoom t' := h
    split_ifs at htake
    cases htake
  | raise e => cases h

theorem listStep_ne_noRoom {a : Action ι} {r : Result} {t' : ι → List UInt8}
    (h : listStep toSingle t a = some (r, t')) : r ≠ .thrown .noRoom := by
  rintro rfl
  have hrun {x : Outcome Raised (List UInt8) Answer} {u : List UInt8}
      (hx : resultOf x = some (.thrown .noRoom, u)) : x = .throw .noRoom u := by
    cases x with
    | ok a t => cases hx
    | throw e t => cases hx; rfl
    | fault => cases hx
  cases a with
  | on i call =>
    obtain ⟨r, hr, heq⟩ := Option.map_eq_some_iff.1 h
    obtain ⟨r, u⟩ := r
    obtain ⟨rfl, -⟩ := Prod.mk.inj heq
    exact Script.perform_not_throw byteList_ne_noRoom _ (hrun hr) rfl
  | setSize i size =>
    obtain ⟨r, hr, heq⟩ := Option.map_eq_some_iff.1 h
    obtain ⟨r, u⟩ := r
    obtain ⟨rfl, -⟩ := Prod.mk.inj heq
    have hcut := hrun hr
    rw [Effect.bind_apply, cut] at hcut
    split_ifs at hcut <;> cases hcut
  | discard | realloc | empty | swap => cases h

/-- A queue of four bytes in blocks of three, and one that is made from a bytearray. -/
def someConstructors : Bool → Constructor
  | true => .capacity 4 3
  | false => .bytes [9, 9, 9] 0

/-- Writes that need room, a push of more bytes than it counts, reads between them, and a read of a
text that is not there. -/
def someActions : List (Action Bool) :=
  [.on true (.SaveInt 5), .on true (.SaveAString (some [.char 'a', .char 'b'])),
    .on true (.Push (some [1, 2, 3]) (some 2)), .on true .LoadInt, .on true (.SaveByte 300),
    .on true .LoadAString, .realloc true 2, .on true (.SaveBytes (some [7, 8]) 9), .setSize true 7,
    .discard false 1, .swap true false, .on false (.PopBytes 2), .on false .LoadBytes, .empty true,
    .on true (.SaveString none), .on true .LoadString]

theorem someActions_within : Within (next (listStep fun _ ↦ none)) (InDomain fun _ ↦ none)
    (fun i ↦ (someConstructors i).content) someActions := by
  decide +kernel

end Family

end SocketPro.Python.ByteQueue
