import Mathlib.Data.Nat.ModEq

/-!
# Circular arrays

A list in an array whose indices go round: the `i`-th element is at `(i + offset) % capacity`.
Elements are copied one by one, as a loop over the places does it.

**Copies may overlap.** Going up is right for a copy to lower places (`cell_copyDown`), going down
for one to higher places (`cell_copyUp`): in both directions no place is read behind the write to
it. The places of less than `capacity` consecutive elements are different (`slot_inj`), so nothing
else is touched.
-/

namespace Ring

variable {α : Type*} {capacity : ℕ} [NeZero capacity]

/-- Where the `i`-th element is. -/
def slot (offset i : ℕ) : Fin capacity := Fin.ofNat capacity (i + offset)

/-- The `i`-th element. -/
def cell (buffer : Vector α capacity) (offset i : ℕ) : α :=
  buffer.get (slot offset i)

/-- The first `count` elements. -/
def view (buffer : Vector α capacity) (offset count : ℕ) : List α :=
  (List.range count).map (cell buffer offset)

/-- Copy one element to the place of another. -/
def copyCell (buffer : Vector α capacity) (offset write read : ℕ) : Vector α capacity :=
  buffer.set (slot offset write : Fin capacity) (cell buffer offset read)

/-- `for (j = 0; j != k; ++j)`: copy `read + j` to `write + j`. -/
def copyDown (buffer : Vector α capacity) (offset write read : ℕ) : ℕ → Vector α capacity
  | 0 => buffer
  | k + 1 => copyCell (copyDown buffer offset write read k) offset (write + k) (read + k)

/-- `for (j = k - 1; j != -1; --j)`: copy `read + j` to `write + j`. -/
def copyUp (buffer : Vector α capacity) (offset write read : ℕ) : ℕ → Vector α capacity
  | 0 => buffer
  | k + 1 => copyUp (copyCell buffer offset (write + k) (read + k)) offset write read k

variable (buffer : Vector α capacity) {offset i j k write read count shift : ℕ}

theorem slot_inj (hi : i < capacity) (hj : j < capacity)
    (heq : (slot offset i : Fin capacity) = slot offset j) : i = j := by
  have hmod : (i + offset) % capacity = (j + offset) % capacity := congrArg Fin.val heq
  have hij : i ≡ j [MOD capacity] := Nat.ModEq.add_right_cancel' offset hmod
  rwa [Nat.ModEq, Nat.mod_eq_of_lt hi, Nat.mod_eq_of_lt hj] at hij

@[simp]
theorem length_view : (view buffer offset count).length = count := by
  rw [view, List.length_map, List.length_range]

/-- The view begins further on. -/
theorem cell_shift (i : ℕ) :
    cell buffer ((offset + shift) % capacity) i = cell buffer offset (shift + i) := by
  have hslot : (slot ((offset + shift) % capacity) i : Fin capacity) = slot offset (shift + i) := by
    refine Fin.ext ?_
    show (i + (offset + shift) % capacity) % capacity = (shift + i + offset) % capacity
    rw [Nat.add_mod_mod]
    congr 1
    omega
  rw [cell, cell, hslot]

theorem cell_copyCell (hi : i < capacity) (hj : j < capacity) :
    cell (copyCell buffer offset j k) offset i =
      if i = j then cell buffer offset k else cell buffer offset i := by
  show (copyCell buffer offset j k)[(slot offset i : Fin capacity).val] = _
  rw [copyCell, Vector.getElem_set]
  by_cases hij : i = j
  · rw [if_pos (congrArg (fun i ↦ (slot offset i : Fin capacity).val) hij.symm), if_pos hij]
  · rw [if_neg fun h ↦ hij (slot_inj hj hi (Fin.ext h)).symm, if_neg hij]
    rfl

theorem cell_copyDown (hdown : write ≤ read) (hk : read + k ≤ capacity) (hi : i < capacity) :
    cell (copyDown buffer offset write read k) offset i =
      if write ≤ i ∧ i < write + k then cell buffer offset (read + (i - write))
      else cell buffer offset i := by
  induction k generalizing i with
  | zero => rw [copyDown, if_neg (by omega)]
  | succ k ih =>
    -- the place that is read is above all that have been written
    have hread : ¬ (write ≤ read + k ∧ read + k < write + k) := by omega
    rw [copyDown, cell_copyCell _ hi (by omega), ih (by omega) (by omega), ih (by omega) hi,
      if_neg hread]
    by_cases hlast : i = write + k
    · rw [if_pos hlast, if_pos (by omega), hlast, Nat.add_sub_cancel_left]
    · rw [if_neg hlast]
      exact if_congr (by omega) rfl rfl

theorem cell_copyUp (hup : read ≤ write) (hk : write + k ≤ capacity) (hi : i < capacity) :
    cell (copyUp buffer offset write read k) offset i =
      if write ≤ i ∧ i < write + k then cell buffer offset (read + (i - write))
      else cell buffer offset i := by
  induction k generalizing buffer with
  | zero => rw [copyUp, if_neg (by omega)]
  | succ k ih =>
    rw [copyUp, ih _ (by omega), cell_copyCell _ hi (by omega)]
    by_cases hin : write ≤ i ∧ i < write + k
    · -- the place that has been written is above all that are read
      rw [if_pos hin, cell_copyCell _ (by omega) (by omega), if_neg (by omega), if_pos (by omega)]
    · rw [if_neg hin]
      by_cases hlast : i = write + k
      · rw [if_pos hlast, if_pos (by omega), hlast, Nat.add_sub_cancel_left]
      · rw [if_neg hlast, if_neg (by omega)]

/-! ### Views -/

theorem getElem?_view : (view buffer offset count)[i]? =
    if i < count then some (cell buffer offset i) else none := by
  rw [view, List.getElem?_map]
  split
  · next hi => rw [List.getElem?_range hi, Option.map_some]
  · next hi =>
    rw [List.getElem?_eq_none (by rw [List.length_range]; omega), Option.map_none]

/-- A part at the front is left out by beginning behind it. -/
theorem view_shift :
    view buffer ((offset + shift) % capacity) count =
      (view buffer offset (shift + count)).drop shift := by
  refine List.ext_getElem? fun i ↦ ?_
  rw [List.getElem?_drop, getElem?_view, getElem?_view, cell_shift]
  exact if_congr (by omega) rfl rfl

theorem view_take {n : ℕ} (h : n ≤ count) :
    view buffer offset n = (view buffer offset count).take n := by
  rw [view, view, ← List.map_take, List.take_range, Nat.min_eq_left h]

/-- **A range is cut out by moving what is behind it down.** -/
theorem view_copyDown {n : ℕ} (hcut : read + k = count) (hdown : write + n = read)
    (hfit : count ≤ capacity) :
    view (copyDown buffer offset write read k) offset (count - n) =
      (view buffer offset count).take write ++ (view buffer offset count).drop read := by
  refine List.ext_getElem? fun i ↦ ?_
  rw [getElem?_view, List.getElem?_append, List.length_take, length_view,
    Nat.min_eq_left (by omega), List.getElem?_take, List.getElem?_drop, getElem?_view,
    getElem?_view]
  by_cases hi : i < count - n
  · rw [if_pos hi, cell_copyDown buffer (by omega) (by omega) (by omega)]
    by_cases hlow : i < write
    · rw [if_neg (by omega), if_pos hlow, if_pos hlow, if_pos (by omega)]
    · rw [if_pos (by omega), if_neg hlow, if_pos (by omega)]
  · rw [if_neg hi, if_neg (by omega), if_neg (by omega)]

/-- **A range is cut out by moving what is before it up**, and beginning further on. -/
theorem view_copyUp {n : ℕ} (hfit : count ≤ capacity) (hk : n + k ≤ count) :
    view (copyUp buffer offset n 0 k) ((offset + n) % capacity) (count - n) =
      (view buffer offset count).take k ++ (view buffer offset count).drop (k + n) := by
  refine List.ext_getElem? fun i ↦ ?_
  rw [getElem?_view, List.getElem?_append, List.length_take, length_view,
    Nat.min_eq_left (by omega), List.getElem?_take, List.getElem?_drop, getElem?_view,
    getElem?_view, cell_shift]
  by_cases hi : i < count - n
  · rw [if_pos hi, cell_copyUp buffer (Nat.zero_le _) (by omega) (by omega)]
    by_cases hlow : i < k
    · rw [if_pos (by omega), if_pos hlow, if_pos hlow, if_pos (by omega), Nat.zero_add,
        Nat.add_sub_cancel_left]
    · rw [if_neg (by omega), if_neg hlow, if_pos (by omega)]
      congr 2
      omega
  · rw [if_neg hi, if_neg (by omega), if_neg (by omega)]

end Ring
