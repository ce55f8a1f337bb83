import Mathlib.Data.List.Basic
import Mathlib.Tactic.TypeStar

/-!
# Blocks of memory

A block is what `malloc` returns: a row of cells, of which those that nothing has been written to
are `none`. `memcpy` and `memmove` read and write ranges of cells, and have no result when a range
leaves the block; a copy inside of one block is a `memmove`.

The proofs about containers that keep their elements in a block are about `slice`, the cells of a
range: what a write leaves of a range before it, of one behind it, and of the range it writes to.
-/

namespace Block

variable {α : Type*}

/-- `n` cells from position `p` on. -/
def slice (p n : ℕ) (b : List α) : List α := (b.drop p).take n

/-- `b` with `w` in the place of the cells from position `p` on. -/
def overwrite (p : ℕ) (w b : List α) : List α := b.take p ++ w ++ b.drop (p + w.length)

/-- `malloc`. -/
def alloc (n : ℕ) : List (Option α) := List.replicate n none

/-- The cells a copy reads. -/
def read (b : List α) (p n : ℕ) : Option (List α) :=
  if p + n ≤ b.length then some (slice p n b) else none

/-- The block after a copy to it. -/
def write (b : List α) (p : ℕ) (w : List α) : Option (List α) :=
  if p + w.length ≤ b.length then some (overwrite p w b) else none

/-- A copy of `n` cells inside of a block, from `src` to `dst`; the ranges may overlap. -/
def memmove (b : List α) (dst src n : ℕ) : Option (List α) := (read b src n).bind (write b dst)

/-- A copy of `n` cells of `b`, from `src` on, to position `dst` of `c`, if there are any. -/
def copyAny (b c : List α) (dst src n : ℕ) : Option (List α) :=
  if n = 0 then some c else (read b src n).bind (write c dst)

variable {b w : List α} {p q m n : ℕ}

/-! ### Ranges -/

@[simp] theorem length_alloc : (alloc n : List (Option α)).length = n := List.length_replicate

theorem length_slice (h : p + n ≤ b.length) : (slice p n b).length = n := by
  rw [slice, List.length_take, List.length_drop]
  omega

theorem slice_add : slice p (m + n) b = slice p m b ++ slice (p + m) n b := by
  rw [slice, slice, slice, List.take_add, List.drop_drop]

theorem slice_zero : slice p 0 b = [] := List.take_zero

theorem take_slice (h : m ≤ n) : (slice p n b).take m = slice p m b := by
  rw [slice, slice, List.take_take, Nat.min_eq_left h]

theorem drop_slice : (slice p n b).drop m = slice (p + m) (n - m) b := by
  rw [slice, slice, List.drop_take, List.drop_drop]

theorem slice_all : slice 0 b.length b = b := by
  rw [slice, List.drop_zero, List.take_length]

/-! ### Writes -/

theorem length_overwrite (h : p + w.length ≤ b.length) :
    (overwrite p w b).length = b.length := by
  simp only [overwrite, List.length_append, List.length_take, List.length_drop]
  omega

/-- The range that is written to. -/
theorem slice_overwrite (h : p ≤ b.length) : slice p w.length (overwrite p w b) = w := by
  have hp : (b.take p).length = p := by rw [List.length_take, Nat.min_eq_left h]
  rw [slice, overwrite, List.append_assoc, List.drop_append_of_le_length (Nat.le_of_eq hp.symm),
    List.drop_of_length_le (Nat.le_of_eq hp), List.nil_append, List.take_left]

/-- A range before it. -/
theorem slice_overwrite_before (h : p ≤ b.length) (hq : q + n ≤ p) :
    slice q n (overwrite p w b) = slice q n b := by
  have hp : (b.take p).length = p := by rw [List.length_take, Nat.min_eq_left h]
  have hle : n ≤ ((b.take p).drop q).length := by
    rw [List.length_drop, hp]
    omega
  have hqp : q ≤ (b.take p).length := by omega
  rw [slice, overwrite, List.append_assoc, List.drop_append_of_le_length hqp,
    List.take_append_of_le_length hle, List.drop_take, List.take_take, Nat.min_eq_left (by omega),
    slice]

/-- A range behind it. -/
theorem slice_overwrite_after (h : p ≤ b.length) (hq : p + w.length ≤ q) :
    slice q n (overwrite p w b) = slice q n b := by
  have hp : (b.take p ++ w).length = p + w.length := by
    rw [List.length_append, List.length_take, Nat.min_eq_left h]
  have hdrop : (b.take p ++ w).drop q = [] := List.drop_of_length_le (hp ▸ hq)
  rw [slice, overwrite, List.drop_append, hdrop, List.nil_append, List.drop_drop, hp, slice,
    Nat.add_sub_cancel' hq]

theorem overwrite_nil : overwrite p [] b = b := by
  rw [overwrite, List.append_nil, List.length_nil, Nat.add_zero, List.take_append_drop]

/-! ### The first cells of a block -/

variable {k : ℕ}

theorem slice_take (h : p + n ≤ k) : slice p n (b.take k) = slice p n b := by
  rw [slice, slice, List.drop_take, List.take_take, Nat.min_eq_left (by omega)]

/-- A write among the first `k` cells. -/
theorem take_overwrite (h : p + w.length ≤ k) (hk : k ≤ b.length) :
    (overwrite p w b).take k = overwrite p w (b.take k) := by
  have hp : (b.take p ++ w).length = p + w.length := by
    rw [List.length_append, List.length_take, Nat.min_eq_left (by omega)]
  have htake : (b.take k).take p = b.take p := by
    rw [List.take_take, Nat.min_eq_left (by omega)]
  rw [overwrite, overwrite, htake, List.drop_take, List.take_append, hp,
    List.take_of_length_le (by omega)]

/-- A write behind them. -/
theorem take_overwrite_of_le (h : k ≤ p) (hp : p ≤ b.length) :
    (overwrite p w b).take k = b.take k := by
  have hlen : k ≤ (b.take p).length := by rw [List.length_take, Nat.min_eq_left hp]; exact h
  rw [overwrite, List.append_assoc, List.take_append_of_le_length hlen, List.take_take,
    Nat.min_eq_left h]

/-! ### Copies -/

theorem read_eq_some (h : p + n ≤ b.length) : read b p n = some (slice p n b) := if_pos h

theorem write_eq_some (h : p + w.length ≤ b.length) : write b p w = some (overwrite p w b) :=
  if_pos h

theorem memmove_eq_some (hread : p + n ≤ b.length) (hwrite : q + n ≤ b.length) :
    memmove b q p n = some (overwrite q (slice p n b) b) := by
  rw [memmove, read_eq_some hread, Option.bind_some, write_eq_some]
  rwa [length_slice hread]

/-! ### Which copies stay inside of their blocks -/

section Inside

variable {c m : List α} {dst src : ℕ}

theorem write_isSome : (write b p w).isSome ↔ p + w.length ≤ b.length := by
  unfold write
  split_ifs with h <;> simp [h]

theorem length_of_write (h : write b p w = some m) : m.length = b.length := by
  have hfits : p + w.length ≤ b.length := write_isSome.1 (h ▸ rfl)
  rw [write_eq_some hfits] at h
  rw [← Option.some.inj h, length_overwrite hfits]

theorem copyAny_isSome :
    (copyAny b c dst src n).isSome ↔ n = 0 ∨ src + n ≤ b.length ∧ dst + n ≤ c.length := by
  unfold copyAny
  by_cases hn : n = 0
  · simp [hn]
  rw [if_neg hn]
  by_cases hread : src + n ≤ b.length
  · rw [read_eq_some hread, Option.bind_some, write_isSome, length_slice hread]
    simp [hn, hread]
  · rw [read, if_neg hread]
    simp [hn, hread]

theorem length_of_copyAny (h : copyAny b c dst src n = some m) : m.length = c.length := by
  unfold copyAny at h
  split_ifs at h with hn
  · rw [← Option.some.inj h]
  · obtain ⟨r, -, hw⟩ := Option.bind_eq_some_iff.1 h
    exact length_of_write hw

end Inside

/-! ### What a copy leaves -/

/-- Cells written right behind a range. -/
theorem write_behind (h : p + n + w.length ≤ b.length) :
    ∃ m, write b (p + n) w = some m ∧ m.length = b.length ∧
      slice p (n + w.length) m = slice p n b ++ w := by
  refine ⟨_, write_eq_some h, length_overwrite h, ?_⟩
  rw [slice_add, slice_overwrite_before (by omega) (Nat.le_refl _), slice_overwrite (by omega)]

/-- Cells written right before a range. -/
theorem write_before (h : p + w.length + n ≤ b.length) :
    ∃ m, write b p w = some m ∧ m.length = b.length ∧
      slice p (w.length + n) m = w ++ slice (p + w.length) n b := by
  have hw : p + w.length ≤ b.length := by omega
  refine ⟨_, write_eq_some hw, length_overwrite hw, ?_⟩
  rw [slice_add, slice_overwrite (by omega), slice_overwrite_after (by omega) (Nat.le_refl _)]

/-- A range moved to another place of the block. -/
theorem memmove_slice (hread : p + n ≤ b.length) (hwrite : q + n ≤ b.length) :
    ∃ m, memmove b q p n = some m ∧ m.length = b.length ∧ slice q n m = slice p n b := by
  have hlen : (slice p n b).length = n := length_slice hread
  refine ⟨_, memmove_eq_some hread hwrite, length_overwrite (by omega), ?_⟩
  have hself := slice_overwrite (b := b) (w := slice p n b) (p := q) (by omega)
  rwa [hlen] at hself

/-- A range copied to a new block. -/
theorem copy_slice {b : List (Option α)} {k : ℕ} (hread : p + n ≤ b.length) (hwrite : q + n ≤ k) :
    ∃ m, (read b p n).bind (write (alloc k) q) = some m ∧ m.length = k ∧
      slice q n m = slice p n b := by
  have hlen : (slice p n b).length = n := length_slice hread
  have hw : q + (slice p n b).length ≤ (alloc k : List (Option α)).length := by
    rw [length_alloc, hlen]
    exact hwrite
  refine ⟨overwrite q (slice p n b) (alloc k), ?_, by rw [length_overwrite hw, length_alloc], ?_⟩
  · rw [read_eq_some hread, Option.bind_some, write_eq_some hw]
  · have hself := slice_overwrite (b := (alloc k : List (Option α))) (w := slice p n b) (p := q)
      (by omega)
    rwa [hlen] at hself

/-! ### The cells up to a position -/

theorem take_eq_slice : b.take k = slice 0 k b := by rw [slice, List.drop_zero]

/-- Cells written right behind the first `k`. -/
theorem write_end (h : k + w.length ≤ b.length) :
    ∃ m, write b k w = some m ∧ m.length = b.length ∧
      m.take (k + w.length) = b.take k ++ w := by
  have hfits : 0 + k + w.length ≤ b.length := by omega
  obtain ⟨m, hm, hlen, hslice⟩ := write_behind hfits
  rw [Nat.zero_add] at hm
  exact ⟨m, hm, hlen, by rw [take_eq_slice, take_eq_slice, hslice]⟩

/-- Cells of another block copied right behind the first `k`. -/
theorem copyAny_end {c : List α} (hread : p + n ≤ b.length) (h : k + n ≤ c.length) :
    ∃ m, copyAny b c k p n = some m ∧ m.length = c.length ∧
      m.take (k + n) = c.take k ++ slice p n b := by
  unfold copyAny
  by_cases hn : n = 0
  · subst hn
    rw [if_pos rfl]
    exact ⟨c, rfl, rfl, by rw [slice_zero, List.append_nil, Nat.add_zero]⟩
  · have hlen : (slice p n b).length = n := length_slice hread
    have hfits : k + (slice p n b).length ≤ c.length := by rwa [hlen]
    obtain ⟨m, hm, hmlen, hmtake⟩ := write_end hfits
    rw [hlen] at hmtake
    rw [if_neg hn, read_eq_some hread, Option.bind_some]
    exact ⟨m, hm, hmlen, hmtake⟩

/-- **A gap is opened** at position `p` of the first `k` cells, and filled. -/
theorem open_gap (hp : p ≤ k) (h : k + w.length ≤ b.length) :
    ∃ m m', memmove b (p + w.length) p (k - p) = some m ∧ write m p w = some m' ∧
      m'.length = b.length ∧ m'.take (k + w.length) = b.take p ++ w ++ slice p (k - p) b := by
  have htail : (slice p (k - p) b).length = k - p := length_slice (by omega)
  have hmove : p + w.length + (slice p (k - p) b).length ≤ b.length := by omega
  have hlen := length_overwrite hmove
  have hfill : p + w.length ≤ (overwrite (p + w.length) (slice p (k - p) b) b).length := by omega
  refine ⟨_, _, memmove_eq_some (by omega) (by omega), write_eq_some hfill,
    (length_overwrite hfill).trans hlen, ?_⟩
  have hsplit : k + w.length = p + w.length + (k - p) := by omega
  have hself := slice_overwrite (b := b) (w := slice p (k - p) b) (p := p + w.length) (by omega)
  rw [htail] at hself
  rw [take_eq_slice, hsplit, slice_add, slice_add, Nat.zero_add, Nat.zero_add,
    slice_overwrite_before (by omega) (by omega), slice_overwrite_before (by omega) (by omega),
    slice_overwrite (by omega), slice_overwrite_after (by omega) (by omega), hself, take_eq_slice]

/-- **A gap is closed**: the `n` cells from position `p` on go from the first `k`. -/
theorem close_gap (hp : p + n ≤ k) (h : k ≤ b.length) :
    ∃ m, memmove b p (p + n) (k - n - p) = some m ∧ m.length = b.length ∧
      m.take (k - n) = b.take p ++ slice (p + n) (k - n - p) b := by
  obtain ⟨m, hm, hlen, hslice⟩ := memmove_slice (b := b) (p := p + n) (q := p) (n := k - n - p)
    (by omega) (by omega)
  have hmove : m = overwrite p (slice (p + n) (k - n - p) b) b :=
    (Option.some.inj (hm.symm.trans (memmove_eq_some (by omega) (by omega))))
  have hsplit : k - n = p + (k - n - p) := by omega
  refine ⟨m, hm, hlen, ?_⟩
  rw [hsplit, take_eq_slice, slice_add, Nat.zero_add, ← hsplit, hslice, hmove,
    slice_overwrite_before (by omega) (by omega), take_eq_slice]

end Block
