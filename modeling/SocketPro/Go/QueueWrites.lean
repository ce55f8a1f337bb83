import SocketPro.Go.SliceQueue
import Mathlib.Algebra.Order.Floor.Div

/-!
# The Go `CUQueue`, write by write

The methods that append to a queue all make room first and then write behind the content. Some write
through a pointer to the first byte, where nothing checks the others, some with the built-in `copy`,
which stops at the end of the array.

The array grows by whole blocks, so its length depends on how far has been written and not on how it
was divided into writes: `grown_grown`. Lengths are 32-bit numbers.

* `writeAll_ok` — where no array with 2^32 bytes is needed, the writes are one behind the other;
* `fits_of_writeAll` — where writes have led to a content that lies in its array, and no position on
  the way has 2^32 bytes before it, none was needed. An array that is too short stays too short.
-/

namespace SocketPro.Go.Slices

open Bytes Machine

/-! ### Growing by blocks -/

/-- The length of an array of `size` bytes when blocks have been added to it until it has `p`. -/
def grown (block size p : ℕ) : ℕ := size + block * ((p - size) ⌈/⌉ block)

section Grown

variable {block size p p' : ℕ}

theorem grown_le_iff (hblock : 0 < block) {k : ℕ} :
    grown block size p ≤ size + block * k ↔ p ≤ size + block * k := by
  rw [grown, Nat.add_le_add_iff_left, Nat.mul_le_mul_left_iff hblock,
    ceilDiv_le_iff_le_mul hblock, Nat.sub_le_iff_le_add']

theorem le_grown (hblock : 0 < block) : p ≤ grown block size p :=
  (grown_le_iff hblock).1 (Nat.le_refl _)

theorem grown_of_le (h : p ≤ size) : grown block size p = size := by
  rw [grown, Nat.sub_eq_zero_of_le h, zero_ceilDiv, Nat.mul_zero, Nat.add_zero]

theorem grown_mono (hblock : 0 < block) (h : p ≤ p') : grown block size p ≤ grown block size p' :=
  (grown_le_iff hblock).2 (le_trans h (le_grown hblock))

/-- **Growing on the way** does not change where it ends. -/
theorem grown_grown (hblock : 0 < block) (h : p ≤ p') :
    grown block (grown block size p) p' = grown block size p' := by
  refine Nat.le_antisymm ?_ ?_
  · have hle : grown block size p ≤ grown block size p' := grown_mono hblock h
    have hcount : (p - size) ⌈/⌉ block ≤ (p' - size) ⌈/⌉ block := by
      rwa [grown, grown, Nat.add_le_add_iff_left, Nat.mul_le_mul_left_iff hblock] at hle
    have hsame : grown block size p' = grown block size p +
        block * ((p' - size) ⌈/⌉ block - (p - size) ⌈/⌉ block) := by
      rw [grown, grown, Nat.add_assoc, ← Nat.mul_add, Nat.add_sub_cancel' hcount]
    rw [hsame, grown_le_iff hblock, ← hsame]
    exact le_grown hblock
  · have hreach : p' ≤ grown block (grown block size p) p' := le_grown hblock
    have hsame : grown block (grown block size p) p' = size +
        block * ((p - size) ⌈/⌉ block + (p' - grown block size p) ⌈/⌉ block) := by
      rw [grown, Nat.mul_add, ← Nat.add_assoc]
      rfl
    rw [hsame] at hreach ⊢
    exact (grown_le_iff hblock).2 hreach

theorem grown_lt (hblock : 0 < block) (h : size < p) : grown block size p < p + block := by
  have hdiv := Nat.mul_div_le (p - size + block - 1) block
  rw [grown, Nat.ceilDiv_eq_add_pred_div]
  omega

end Grown

/-! ### Writes -/

/-- A write behind the content. -/
inductive Write
  /-- Through a pointer to the first byte. -/
  | store (bs : List UInt8)
  /-- With the built-in `copy`. -/
  | copy (bs : List UInt8)
deriving DecidableEq, Repr

@[simp] def Write.bytes : Write → List UInt8
  | store bs | copy bs => bs

/-- The bytes of some writes. -/
def bytesOf (ws : List Write) : List UInt8 := ws.flatMap Write.bytes

theorem bytesOf_append (ws vs : List Write) : bytesOf (ws ++ vs) = bytesOf ws ++ bytesOf vs :=
  List.flatMap_append

namespace CUQueue

/-- `makeAvailable`, a write, and the new length. -/
def write (m : Arrays) (q : CUQueue) : Write → Option (Arrays × CUQueue)
  | .store s => do
    let (m', a) ← q.makeAvailable m (s.length % 2 ^ 32)
    -- the first byte is looked for in the array, the others are written wherever they are
    if (m'.elements a).length < (q.len + q.headPos) % 2 ^ 32 + s.length then none
    else q.PushBytes m s
  | .copy s => q.PushBytes m s

/-- One write after the other. -/
def writeAll (s : Arrays × CUQueue) (ws : List Write) : Option (Arrays × CUQueue) :=
  ws.foldlM (fun s w ↦ s.2.write s.1 w) s

variable {m m' : Arrays} {q q' : CUQueue} {w : Write} {ws : List Write} {n k : ℕ}

theorem pushBytes_of_write (h : q.write m w = some (m', q')) :
    q.PushBytes m w.bytes = some (m', q') := by
  cases w with
  | store s =>
    obtain ⟨⟨m₁, a⟩, -, hstore⟩ := Option.bind_eq_some_iff.1 h
    exact (Option.ite_none_left_eq_some.1 hstore).2
  | copy s => exact h

/-! ### Arrays of any length -/

/-- The queue has an array. Its content may reach over the end. -/
structure Housed (m : Arrays) (q : CUQueue) : Prop where
  array : ∀ a, q.buffer = some a → a < m.length ∧ (m.elements a).length < 2 ^ 32
  none : q.buffer = none → q.headPos = 0 ∧ q.len = 0

/-- The length of the array, or of the one that will be made. -/
def capacity (m : Arrays) (q : CUQueue) : ℕ :=
  match q.buffer with
  | none => q.blockSize
  | some a => (m.elements a).length

theorem length_withArray :
    ((q.withArray m).1.elements (q.withArray m).2).length = q.capacity m := by
  rcases hq : q.buffer with - | a
  · simp only [withArray, capacity, hq, Store.elements_alloc_self, zeros, List.length_replicate]
  · simp only [withArray, capacity, hq]

theorem Housed.capacity_lt (h : q.Housed m) (hb : q.blockSize < 2 ^ 32) :
    q.capacity m < 2 ^ 32 := by
  rw [capacity]
  split
  · exact hb
  · next a ha => exact (h.array a ha).2

theorem sound_iff : q.Sound m ↔ q.Housed m ∧ q.headPos + q.len ≤ q.capacity m := by
  constructor
  · intro h
    refine ⟨⟨fun a ha ↦ ?_, h.none⟩, ?_⟩
    · obtain ⟨hlt, -, hbound⟩ := h.array a ha
      exact ⟨hlt, hbound⟩
    · rw [capacity]
      split
      · next hnone =>
        obtain ⟨hhead, hlen⟩ := h.none hnone
        omega
      · next a ha => exact (h.array a ha).2.1
  · rintro ⟨h, hle⟩
    refine ⟨fun a ha ↦ ?_, h.none⟩
    obtain ⟨hlt, hbound⟩ := h.array a ha
    rw [capacity, ha] at hle
    exact ⟨hlt, hle, hbound⟩

theorem length_content_le_len (m : Arrays) (q : CUQueue) : (q.content m).length ≤ q.len := by
  rw [content]
  split
  · exact Nat.zero_le _
  · exact List.length_take_le _ _

/-- A content that is all there lies in the array. -/
theorem sound_of_length_content (h : q.Housed m) (hlen : (q.content m).length = q.len)
    (hpos : 0 < q.len) : q.Sound m := by
  refine sound_iff.2 ⟨h, ?_⟩
  rw [content] at hlen
  rw [capacity]
  split
  · next hnone =>
    rw [hnone] at hlen
    exact absurd hlen (Nat.ne_of_lt hpos)
  · next a ha =>
    rw [ha] at hlen
    simp only [Store.read, Block.slice, List.length_take, List.length_drop] at hlen
    omega

/-- What `grownSize` comes to. -/
theorem grownSize_eq {a : ℕ} (hpos : 0 < q.blockSize) :
    q.grownSize m a n =
      (m.elements a).length + q.blockSize * ((n - q.idle m a) ⌈/⌉ q.blockSize) := by
  have hdiv := Nat.div_add_mod (n - q.idle m a) q.blockSize
  have hmod := Nat.mod_lt (n - q.idle m a) hpos
  have hceil : (n - q.idle m a) ⌈/⌉ q.blockSize = (n - q.idle m a) / q.blockSize +
      if 0 < (n - q.idle m a) % q.blockSize then 1 else 0 := by
    refine Nat.le_antisymm ((ceilDiv_le_iff_le_mul hpos).2 ?_) ?_
    · split <;> simp only [Nat.mul_add, Nat.mul_one, Nat.mul_zero] <;> omega
    · rw [Nat.ceilDiv_eq_add_pred_div, Nat.le_div_iff_mul_le hpos, Nat.mul_comm]
      split <;> simp only [Nat.mul_add, Nat.mul_one, Nat.mul_zero] <;> omega
  rw [grownSize, hceil, Nat.mul_add, Nat.mul_comm q.blockSize, Nat.add_comm]
  split <;> simp

/-- What is idle behind the content, in 32 bits. -/
theorem idle_withArray :
    q.idle (q.withArray m).1 (q.withArray m).2 = sub32 (sub32 (q.capacity m) q.headPos) q.len := by
  rw [idle, length_withArray]

/-- The array that `makeAvailable` provides. -/
theorem makeAvailable_inv {a : ℕ} (h : q.Housed m) (hmake : q.makeAvailable m n = some (m', a)) :
    a < m'.length ∧ (m'.elements a).length =
      if sub32 (sub32 (q.capacity m) q.headPos) q.len < n
        then (q.capacity m + q.blockSize *
          ((n - sub32 (sub32 (q.capacity m) q.headPos) q.len) ⌈/⌉ q.blockSize)) % 2 ^ 32
        else q.capacity m := by
  have hidle := q.idle_withArray (m := m)
  have hlength := q.length_withArray (m := m)
  have halt : (q.withArray m).2 < (q.withArray m).1.length := by
    rcases hq : q.buffer with - | b
    · simp only [withArray, hq, Store.length_alloc, Nat.lt_succ_self]
    · simpa only [withArray, hq] using (h.array b hq).1
  rw [makeAvailable] at hmake
  rcases hwith : q.withArray m with ⟨m₁, a₁⟩
  simp only [hwith] at hidle hlength halt hmake
  rw [← hidle]
  rcases Nat.lt_or_ge (q.idle m₁ a₁) n with hless | henough
  · rw [if_pos hless] at hmake ⊢
    obtain ⟨hpos, hmake⟩ := Option.ite_none_left_eq_some.1 hmake
    have hsize := q.grownSize_eq (m := m₁) (a := a₁) (n := n) (Nat.pos_of_ne_zero hpos)
    rw [hlength] at hsize
    obtain ⟨rfl, rfl⟩ := Prod.mk.inj (Option.some.inj hmake)
    rw [Store.length_alloc, Store.elements_alloc_self, hsize, zeros, List.length_append,
      List.length_replicate, List.length_take]
    exact ⟨Nat.lt_succ_self _, by omega⟩
  · rw [if_neg (Nat.not_lt.2 henough)] at hmake ⊢
    obtain ⟨rfl, rfl⟩ := Prod.mk.inj (Option.some.inj hmake)
    exact ⟨halt, hlength⟩

/-- What a write leaves, whether the array is long enough or not. -/
theorem write_inv (h : q.Housed m) (hb : q.blockSize < 2 ^ 32)
    (hwrite : q.write m w = some (m', q')) :
    q'.Housed m' ∧ q'.headPos = q.headPos ∧ q'.len = (q.len + w.bytes.length) % 2 ^ 32 ∧
      q'.blockSize = q.blockSize ∧
      ∃ m₁ a, q.makeAvailable m (w.bytes.length % 2 ^ 32) = some (m₁, a) ∧
        q'.capacity m' = (m₁.elements a).length := by
  have hpush := pushBytes_of_write hwrite
  obtain ⟨⟨m₁, a⟩, hmake, hpush⟩ := Option.bind_eq_some_iff.1 hpush
  obtain ⟨hstart, hpush⟩ := Option.ite_none_left_eq_some.1 hpush
  obtain ⟨rfl, rfl⟩ := Prod.mk.inj (Option.some.inj hpush)
  obtain ⟨halt, hlength⟩ := makeAvailable_inv h hmake
  have hsame : ((m₁.write a ((q.len + q.headPos) % 2 ^ 32) (w.bytes.take
      ((m₁.elements a).length - (q.len + q.headPos) % 2 ^ 32))).elements a).length =
        (m₁.elements a).length := by
    refine Store.length_elements_write ?_ a
    rw [List.length_take]
    omega
  have hbound : (m₁.elements a).length < 2 ^ 32 := by
    have hcap := h.capacity_lt hb
    rw [hlength]
    split <;> omega
  refine ⟨⟨fun b hb' ↦ ?_, fun hnone ↦ by simp at hnone⟩, rfl, rfl, rfl, m₁, a, hmake, hsame⟩
  obtain rfl : a = b := Option.some.inj hb'
  rw [Store.length_write]
  exact ⟨halt, hsame.symm ▸ hbound⟩

/-- **The array behind a write**: one that is too short stays as it is, because what it lacks counts
as idle. -/
theorem capacity_write (h : q.Housed m) (hb : q.blockSize < 2 ^ 32)
    (hn : q.headPos + q.len + w.bytes.length < 2 ^ 32) (hwrite : q.write m w = some (m', q')) :
    q'.capacity m' = if q.headPos + q.len ≤ q.capacity m
      then grown q.blockSize (q.capacity m) (q.headPos + q.len + w.bytes.length) % 2 ^ 32
      else q.capacity m := by
  have hcap := h.capacity_lt hb
  obtain ⟨-, -, -, -, m₁, a, hmake, hlength⟩ := write_inv h hb hwrite
  rw [Nat.mod_eq_of_lt (by omega)] at hmake
  rw [hlength, (makeAvailable_inv h hmake).2]
  rcases Nat.lt_or_ge (q.capacity m) (q.headPos + q.len) with hover | hinside
  · have hidle : ¬ sub32 (sub32 (q.capacity m) q.headPos) q.len < w.bytes.length := by
      rw [sub32, sub32]
      omega
    rw [if_neg hidle, if_neg (Nat.not_le.2 hover)]
  · rw [if_pos hinside, sub32_of_le (by omega) hcap, sub32_of_le (by omega) (by omega)]
    split
    · have hbehind : w.bytes.length - (q.capacity m - q.headPos - q.len) =
          q.headPos + q.len + w.bytes.length - q.capacity m := by omega
      rw [hbehind, grown]
    · rw [grown_of_le (by omega), Nat.mod_eq_of_lt hcap]

/-- The positions that an array can be made long enough for. -/
theorem fits_iff (h : q.Sound m) (hpos : 0 < q.blockSize) (hb : q.blockSize < 2 ^ 32) :
    q.Fits m n ↔ grown q.blockSize (q.capacity m) (q.headPos + q.len + n) < 2 ^ 32 := by
  obtain ⟨hhoused, hinside⟩ := sound_iff.1 h
  have hcap := hhoused.capacity_lt hb
  rw [Fits, grownSize_eq hpos, idle_withArray, length_withArray,
    sub32_of_le (by omega) hcap, sub32_of_le (by omega) (by omega)]
  rcases Nat.lt_or_ge (q.capacity m - q.headPos - q.len) n with hless | henough
  · have hbehind : n - (q.capacity m - q.headPos - q.len) =
        q.headPos + q.len + n - q.capacity m := by omega
    rw [hbehind, grown]
    exact ⟨fun h ↦ h hless, fun h _ ↦ h⟩
  · rw [grown_of_le (by omega)]
    exact iff_of_true (fun h ↦ absurd h (Nat.not_lt.2 henough)) hcap

/-- What an array is long enough for ends below the limit. -/
theorem Fits.lt (hfit : q.Fits m n) (h : q.Sound m) (hpos : 0 < q.blockSize)
    (hb : q.blockSize < 2 ^ 32) : q.headPos + q.len + n < 2 ^ 32 :=
  lt_of_le_of_lt (le_grown hpos) ((fits_iff h hpos hb).1 hfit)

/-- **A write in an array that is long enough.** -/
theorem write_ok (h : q.Sound m) (hpos : 0 < q.blockSize) (hb : q.blockSize < 2 ^ 32)
    (hfit : q.Fits m w.bytes.length) :
    ∃ m' q', q.write m w = some (m', q') ∧ q'.Sound m' ∧
      q'.content m' = q.content m ++ w.bytes := by
  have hlt := hfit.lt h hpos hb
  obtain ⟨m', a, hpush, -, hsound, hread, -, -⟩ := pushBytes_ok h hpos hb (by omega) hfit
  refine ⟨m', _, ?_, hsound, hread⟩
  cases w with
  | copy s => exact hpush
  | store s =>
    obtain ⟨m₁, b, hmake, -, -, hroom, -⟩ := makeAvailable_ok h hpos hb hfit
    have hposition : (q.len + q.headPos) % 2 ^ 32 = q.headPos + q.len := by
      rw [Nat.add_comm, Nat.mod_eq_of_lt (by omega)]
    have hinside : ¬ (m₁.elements b).length < q.headPos + q.len + s.length := Nat.not_lt.2 hroom
    have hlength : s.length < 2 ^ 32 := lt_of_le_of_lt (Nat.le_add_left _ _) hlt
    have hmake' : q.makeAvailable m (s.length % 2 ^ 32) = some (m₁, b) := by
      rw [Nat.mod_eq_of_lt hlength]
      exact hmake
    rw [write, hmake']
    simp only [Option.bind_eq_bind, Option.bind_some, hposition, if_neg hinside]
    exact hpush

/-- What is left to be written fits if all does. -/
theorem fits_write_iff (h : q.Sound m) (hpos : 0 < q.blockSize) (hb : q.blockSize < 2 ^ 32)
    (hfit : q.Fits m w.bytes.length) (hwrite : q.write m w = some (m', q')) (h' : q'.Sound m') :
    q'.Fits m' n ↔ q.Fits m (w.bytes.length + n) := by
  obtain ⟨-, hhead, hlen, hblock, -⟩ := write_inv (sound_iff.1 h).1 hb hwrite
  have hlt := hfit.lt h hpos hb
  have hcap := capacity_write (sound_iff.1 h).1 hb hlt hwrite
  rw [if_pos (sound_iff.1 h).2, Nat.mod_eq_of_lt ((fits_iff h hpos hb).1 hfit)] at hcap
  rw [Nat.mod_eq_of_lt (by omega)] at hlen
  have hsum : q.headPos + (q.len + w.bytes.length) + n =
      q.headPos + q.len + (w.bytes.length + n) := by omega
  rw [fits_iff h' (hblock ▸ hpos) (hblock ▸ hb), fits_iff h hpos hb, hhead, hlen, hblock, hcap,
    hsum, grown_grown hpos (by omega)]

/-- **An array that is long enough after a write was made so**: none with 2^32 bytes was needed. -/
theorem sound_of_write (h : q.Housed m) (hb : q.blockSize < 2 ^ 32)
    (hpos : 0 < q.blockSize) (hn : q.headPos + q.len + w.bytes.length < 2 ^ 32)
    (hwrite : q.write m w = some (m', q')) (h' : q'.Sound m') :
    q.Sound m ∧ q.Fits m w.bytes.length := by
  obtain ⟨-, hhead, hlen, -, -⟩ := write_inv h hb hwrite
  have hinside' := (sound_iff.1 h').2
  rw [hhead, hlen, capacity_write h hb hn hwrite, Nat.mod_eq_of_lt (by omega)] at hinside'
  rcases Nat.lt_or_ge (q.capacity m) (q.headPos + q.len) with hover | hinside
  · rw [if_neg (Nat.not_le.2 hover)] at hinside'
    omega
  · have hsound : q.Sound m := sound_iff.2 ⟨h, hinside⟩
    refine ⟨hsound, (fits_iff hsound hpos hb).2 ?_⟩
    rw [if_pos hinside] at hinside'
    by_contra hlarge
    -- cut to 32 bits, the size is too small by almost 2^32
    have hcaplt := h.capacity_lt hb
    have hless : q.capacity m < q.headPos + q.len + w.bytes.length := by
      by_contra hle
      rw [grown_of_le (Nat.not_lt.1 hle)] at hlarge
      exact hlarge hcaplt
    have hlt := grown_lt hpos hless
    omega

/-! ### Runs -/

theorem writeAll_cons (s : Arrays × CUQueue) :
    writeAll s (w :: ws) = s.2.write s.1 w >>= fun s ↦ writeAll s ws := by
  rw [writeAll, List.foldlM_cons]
  rfl

theorem length_bytesOf_cons :
    (bytesOf (w :: ws)).length = w.bytes.length + (bytesOf ws).length := by
  rw [bytesOf, List.flatMap_cons, List.length_append]
  rfl

/-- **Writes one behind the other**, where no array with 2^32 bytes is needed. -/
theorem writeAll_ok (h : q.Sound m) (hpos : 0 < q.blockSize) (hb : q.blockSize < 2 ^ 32)
    (hfit : q.Fits m (bytesOf ws).length) :
    ∃ m' q', writeAll (m, q) ws = some (m', q') ∧ q'.Sound m' ∧
      q'.content m' = q.content m ++ bytesOf ws := by
  induction ws generalizing m q with
  | nil => exact ⟨m, q, rfl, h, (List.append_nil _).symm⟩
  | cons w ws ih =>
    rw [length_bytesOf_cons] at hfit
    have hfirst : q.Fits m w.bytes.length := (fits_iff h hpos hb).2 <|
      lt_of_le_of_lt (grown_mono hpos (by omega)) ((fits_iff h hpos hb).1 hfit)
    obtain ⟨m₁, q₁, hwrite, hsound, hcontent⟩ := write_ok h hpos hb hfirst
    have hblock : q₁.blockSize = q.blockSize :=
      (write_inv (sound_iff.1 h).1 hb hwrite).2.2.2.1
    obtain ⟨m', q', hall, hsound', hcontent'⟩ := ih hsound (hblock ▸ hpos) (hblock ▸ hb)
      ((fits_write_iff h hpos hb hfirst hwrite hsound).2 hfit)
    refine ⟨m', q', ?_, hsound', ?_⟩
    · rw [writeAll_cons, hwrite]
      exact hall
    · rw [hcontent', hcontent, List.append_assoc]
      rfl

/-- What writes leave, whether the arrays are long enough or not. -/
theorem writeAll_inv (h : q.Housed m) (hb : q.blockSize < 2 ^ 32)
    (hwrite : writeAll (m, q) ws = some (m', q')) :
    q'.Housed m' ∧ q'.headPos = q.headPos ∧ q'.len ≤ q.len + (bytesOf ws).length ∧
      q'.blockSize = q.blockSize := by
  induction ws generalizing m q with
  | nil =>
    obtain ⟨rfl, rfl⟩ := Prod.mk.inj (Option.some.inj hwrite)
    exact ⟨h, rfl, Nat.le_add_right _ _, rfl⟩
  | cons w ws ih =>
    rw [writeAll_cons] at hwrite
    obtain ⟨⟨m₁, q₁⟩, hfirst, hrest⟩ := Option.bind_eq_some_iff.1 hwrite
    obtain ⟨hhoused, hhead, hlen, hblock, -⟩ := write_inv h hb hfirst
    obtain ⟨hhoused', hhead', hlen', hblock'⟩ := ih hhoused (hblock ▸ hb) hrest
    have hmod := Nat.mod_le (q.len + w.bytes.length) (2 ^ 32)
    rw [length_bytesOf_cons]
    exact ⟨hhoused', hhead'.trans hhead, by omega, hblock'.trans hblock⟩

/-- **What has been written in full needed no array with 2^32 bytes.** -/
theorem fits_of_writeAll (h : q.Housed m) (hpos : 0 < q.blockSize) (hb : q.blockSize < 2 ^ 32)
    (hn : q.headPos + q.len + (bytesOf ws).length < 2 ^ 32)
    (hwrite : writeAll (m, q) ws = some (m', q')) (h' : q'.Sound m') :
    q.Sound m ∧ q.Fits m (bytesOf ws).length := by
  induction ws generalizing m q with
  | nil =>
    obtain ⟨rfl, rfl⟩ := Prod.mk.inj (Option.some.inj hwrite)
    exact ⟨h', fun hidle ↦ absurd hidle (Nat.not_lt_zero _)⟩
  | cons w ws ih =>
    rw [length_bytesOf_cons] at hn
    rw [writeAll_cons] at hwrite
    obtain ⟨⟨m₁, q₁⟩, hfirst, hrest⟩ := Option.bind_eq_some_iff.1 hwrite
    obtain ⟨hhoused, hhead, hlen, hblock, -⟩ := write_inv h hb hfirst
    rw [Nat.mod_eq_of_lt (by omega)] at hlen
    obtain ⟨hsound₁, hfit₁⟩ := ih hhoused (hblock ▸ hpos) (hblock ▸ hb) (by omega) hrest
    obtain ⟨hsound, hfit⟩ := sound_of_write h hb hpos (by omega) hfirst hsound₁
    rw [length_bytesOf_cons]
    exact ⟨hsound, (fits_write_iff hsound hpos hb hfit hfirst hsound₁).1 hfit₁⟩

theorem writeAll_append (s : Arrays × CUQueue) (ws vs : List Write) :
    writeAll s (ws ++ vs) = writeAll s ws >>= fun s ↦ writeAll s vs := List.foldlM_append

/-- **A run of stores** stays below the limit, since each of them ends in its array. -/
theorem stores_lt (h : q.Housed m) (hb : q.blockSize < 2 ^ 32)
    (hws : ∀ w ∈ ws, ∃ s, w = .store s) (hwrite : writeAll (m, q) ws = some (m', q')) :
    (q.len + q.headPos) % 2 ^ 32 + (bytesOf ws).length < 2 ^ 32 := by
  induction ws generalizing m q with
  | nil => exact Nat.mod_lt _ (by decide)
  | cons w ws ih =>
    rw [writeAll_cons] at hwrite
    obtain ⟨⟨m₁, q₁⟩, hfirst, hrest⟩ := Option.bind_eq_some_iff.1 hwrite
    obtain ⟨hhoused, hhead, hlen, hblock, m₂, a, hmake, hcap⟩ := write_inv h hb hfirst
    obtain ⟨s, rfl⟩ := hws w List.mem_cons_self
    have hbound := hhoused.capacity_lt (hblock ▸ hb)
    have hinside : (q.len + q.headPos) % 2 ^ 32 + s.length ≤ q₁.capacity m₁ := by
      obtain ⟨⟨m₃, a₃⟩, hmake', hstore⟩ := Option.bind_eq_some_iff.1 hfirst
      obtain ⟨rfl, rfl⟩ := Prod.mk.inj (Option.some.inj (hmake.symm.trans hmake'))
      rw [hcap]
      exact Nat.not_lt.1 (Option.ite_none_left_eq_some.1 hstore).1
    have htail := ih hhoused (hblock ▸ hb) (fun v hv ↦ hws v (List.mem_cons_of_mem _ hv)) hrest
    rw [length_bytesOf_cons]
    rw [hhead, hlen] at htail
    simp only [Write.bytes] at htail ⊢
    omega

end CUQueue

end SocketPro.Go.Slices
