import SocketPro.Foundation.Block
import SocketPro.Foundation.Trace

/-!
# The double-ended queue

`CSafeDeque<T>` of `safequeue.h`: the elements lie in one piece in a block of memory, from
`m_header` on. A copy that leaves the block makes the operation go wrong (`none`); so would one that
`memcpy` makes inside of the block, but every such copy in the source is a `memmove`. Allocations
succeed, and sizes are natural numbers: what fits in memory does not wrap a `size_t`.

**The deque is a list.** `Holds d l` says that the block holds the elements of `l`, and that they
lie within it. Every operation keeps it, with the list operation of its name (`…_holds`), so that
`deque_is_list` follows for all sequences of operations on any number of deques.

A push of a whole deque takes both locks, and a lock is not granted to a thread that has it. Whether
the locks are granted within the given number of cycles is part of the operation.
-/

namespace SocketPro.Deque

open Block Machine

variable {α : Type}

/-- The members of `CSafeDeque`. -/
structure CSafeDeque (α : Type) where
  m_capacity : ℕ
  m_header : ℕ
  m_count : ℕ
  m_p : List (Option α)
deriving DecidableEq, Repr

/-- `INITIAL_CAPACITY`. -/
def INITIAL_CAPACITY : ℕ := 128

/-- What an operation returns: the number of elements, and those it has copied out. -/
structure Result (α : Type) where
  count : ℕ
  elements : List (Option α)
deriving DecidableEq, Repr

namespace CSafeDeque

/-- The constructor. -/
def new (initialCapacity : ℕ) : CSafeDeque α :=
  let capacity := if initialCapacity = 0 then INITIAL_CAPACITY else initialCapacity
  ⟨capacity, 0, 0, alloc capacity⟩

/-- `popfront`, with the lock. -/
def popfront (d : CSafeDeque α) (count : ℕ) : Option (Result α × CSafeDeque α) :=
  if d.m_count = 0 then some (⟨0, []⟩, d)
  else do
    let count := if d.m_count < count then d.m_count else count
    let p ← read d.m_p d.m_header count
    let left := d.m_count - count
    some (⟨count, p⟩, { d with
      m_count := left
      m_header := if left = 0 then 0 else d.m_header + count })

/-- `popback`, with the lock. -/
def popback (d : CSafeDeque α) (count : ℕ) : Option (Result α × CSafeDeque α) :=
  if d.m_count = 0 then some (⟨0, []⟩, d)
  else do
    let count := if d.m_count < count then d.m_count else count
    let left := d.m_count - count
    let p ← read d.m_p (d.m_header + left) count
    some (⟨count, p⟩, { d with
      m_count := left
      m_header := if left = 0 then 0 else d.m_header })

/-- `pushback`, with the lock. -/
def pushback (d : CSafeDeque α) (p : List (Option α)) : Option (CSafeDeque α) :=
  let count := p.length
  let tail := d.m_capacity - (d.m_header + d.m_count)
  if count ≤ tail then do
    let m ← write d.m_p (d.m_header + d.m_count) p
    some { d with m_p := m, m_count := d.m_count + count }
  else if d.m_count + count < tail + d.m_header then do
    let m ← memmove d.m_p 0 d.m_header d.m_count
    let m ← write m d.m_count p
    some { d with m_p := m, m_header := 0, m_count := d.m_count + count }
  else do
    let newCap := count + d.m_capacity * 2
    let m ← write (alloc newCap) 0 (← read d.m_p d.m_header d.m_count)
    let m ← write m d.m_count p
    some { m_p := m, m_header := 0, m_count := d.m_count + count, m_capacity := newCap }

/-- `pushfront`, with the lock. -/
def pushfront (d : CSafeDeque α) (p : List (Option α)) : Option (CSafeDeque α) :=
  let count := p.length
  if count ≤ d.m_header then do
    let header := d.m_header - count
    let m ← write d.m_p header p
    some { d with m_p := m, m_header := header, m_count := d.m_count + count }
  else
    let space := d.m_capacity - d.m_count
    if count < space ∧ d.m_count < d.m_capacity / 2 then do
      let m ← memmove d.m_p space d.m_header d.m_count
      let header := space - count
      let m ← write m header p
      some { d with m_p := m, m_header := header, m_count := d.m_count + count }
    else do
      let newCap := count + d.m_capacity * 2
      let header := newCap - d.m_count - count
      let m ← write (alloc newCap) (header + count) (← read d.m_p d.m_header d.m_count)
      let m ← write m header p
      some { m_p := m, m_header := header, m_count := d.m_count + count, m_capacity := newCap }

/-- `shrink_to_fit`. -/
def shrink_to_fit (d : CSafeDeque α) : Option (CSafeDeque α) := do
  let m ← write (alloc d.m_count) 0 (← read d.m_p d.m_header d.m_count)
  some { d with m_p := m, m_header := 0, m_capacity := d.m_count }

/-- `clear`. -/
def clear (d : CSafeDeque α) : CSafeDeque α := { d with m_count := 0, m_header := 0 }

/-! ### The elements -/

/-- The block holds the elements of `l`, and they lie within it. -/
structure Holds (d : CSafeDeque α) (l : List α) : Prop where
  block : d.m_p.length = d.m_capacity
  count : d.m_count = l.length
  fits : d.m_header + d.m_count ≤ d.m_capacity
  elements : slice d.m_header d.m_count d.m_p = l.map some

variable {d : CSafeDeque α} {l : List α}

theorem new_holds (initialCapacity : ℕ) : (new initialCapacity : CSafeDeque α).Holds [] where
  block := length_alloc
  count := rfl
  fits := Nat.zero_le _
  elements := slice_zero

theorem clear_holds (h : d.Holds l) : d.clear.Holds [] where
  block := h.block
  count := rfl
  fits := Nat.zero_le _
  elements := slice_zero

/-- `min`, as the source computes it. -/
theorem clamp_eq (n m : ℕ) : (if n < m then n else m) = min m n := by
  split_ifs with h
  · exact (Nat.min_eq_right (Nat.le_of_lt h)).symm
  · exact (Nat.min_eq_left (Nat.le_of_not_lt h)).symm

theorem popfront_holds (h : d.Holds l) (n : ℕ) :
    ∃ d', d.popfront n = some (⟨min n l.length, (l.take n).map some⟩, d') ∧
      d'.Holds (l.drop n) := by
  obtain ⟨hblock, hcount, hfits, helements⟩ := h
  unfold popfront
  by_cases hzero : d.m_count = 0
  · have hnil : l = [] := List.length_eq_zero_iff.1 (hcount.symm.trans hzero)
    subst hnil
    exact ⟨d, by simp [hzero], by simpa using ⟨hblock, hcount, hfits, helements⟩⟩
  · have hread : read d.m_p d.m_header (min n l.length) = some ((l.take n).map some) := by
      rw [read_eq_some (by omega), ← take_slice (n := d.m_count) (by omega), helements,
        ← List.map_take, ← List.take_eq_take_min]
    rw [if_neg hzero, clamp_eq, hcount]
    dsimp only
    rw [hread, Option.bind_eq_bind, Option.bind_some]
    have hleft : l.length - min n l.length = (l.drop n).length := by
      rw [List.length_drop]
      omega
    refine ⟨_, rfl, hblock, hleft, ?_, ?_⟩
    · dsimp only
      split_ifs <;> omega
    · dsimp only
      split_ifs with hnone
      · -- The last element is gone, and the header is back at the front.
        have hnil : l.drop n = [] := List.length_eq_zero_iff.1 (hleft.symm.trans hnone)
        rw [hnone, hnil]
        exact slice_zero
      · have hn : min n l.length = n := by omega
        rw [hn, List.map_drop, ← helements, drop_slice, hcount]

theorem popback_holds (h : d.Holds l) (n : ℕ) :
    ∃ d', d.popback n = some (⟨min n l.length, (l.drop (l.length - n)).map some⟩, d') ∧
      d'.Holds (l.take (l.length - n)) := by
  obtain ⟨hblock, hcount, hfits, helements⟩ := h
  unfold popback
  by_cases hzero : d.m_count = 0
  · have hnil : l = [] := List.length_eq_zero_iff.1 (hcount.symm.trans hzero)
    subst hnil
    exact ⟨d, by simp [hzero], by simpa using ⟨hblock, hcount, hfits, helements⟩⟩
  · have hleft : l.length - min n l.length = l.length - n := by omega
    have hlen : d.m_count - (l.length - n) = min n l.length := by omega
    have hread : read d.m_p (d.m_header + (l.length - n)) (min n l.length) =
        some ((l.drop (l.length - n)).map some) := by
      rw [read_eq_some (by omega), List.map_drop, ← helements, drop_slice, hlen]
    rw [if_neg hzero, clamp_eq, hcount]
    dsimp only
    rw [hleft, hread, Option.bind_eq_bind, Option.bind_some]
    refine ⟨_, rfl, hblock, ?_, ?_, ?_⟩
    · rw [List.length_take, Nat.min_eq_left (Nat.sub_le _ _)]
    · dsimp only
      split_ifs <;> omega
    · dsimp only
      split_ifs with hnone
      · rw [hnone]
        exact slice_zero
      · rw [List.map_take, ← helements, take_slice (by omega)]

theorem pushback_holds (h : d.Holds l) (xs : List α) :
    ∃ d', d.pushback (xs.map some) = some d' ∧ d'.Holds (l ++ xs) := by
  obtain ⟨hblock, hcount, hfits, helements⟩ := h
  have hlen : (xs.map some).length = xs.length := List.length_map _
  have hcount' : d.m_count + xs.length = (l ++ xs).length := by rw [List.length_append, hcount]
  unfold pushback
  dsimp only
  rw [hlen, Option.bind_eq_bind]
  split_ifs with htail hslide
  · -- Behind the elements.
    obtain ⟨m, hm, hmlen, hslice⟩ := write_behind (b := d.m_p) (w := xs.map some)
      (p := d.m_header) (n := d.m_count) (by omega)
    rw [hm, Option.bind_some]
    refine ⟨_, rfl, hmlen.trans hblock, hcount', by dsimp only; omega, ?_⟩
    rw [hlen, helements, ← List.map_append] at hslice
    exact hslice
  · -- Behind the elements, which have been moved to the front.
    obtain ⟨m₀, hm₀, hmlen₀, hslice₀⟩ := memmove_slice (b := d.m_p) (p := d.m_header) (q := 0)
      (n := d.m_count) (by omega) (by omega)
    obtain ⟨m, hm, hmlen, hslice⟩ := write_behind (b := m₀) (w := xs.map some) (p := 0)
      (n := d.m_count) (by omega)
    rw [Nat.zero_add] at hm
    rw [hm₀, Option.bind_some, hm, Option.bind_some]
    refine ⟨_, rfl, (hmlen.trans hmlen₀).trans hblock, hcount', by dsimp only; omega, ?_⟩
    rw [hlen, hslice₀, helements, ← List.map_append] at hslice
    exact hslice
  · -- Behind a copy of the elements in a new block.
    obtain ⟨m₀, hm₀, hmlen₀, hslice₀⟩ := copy_slice (b := d.m_p) (p := d.m_header) (q := 0)
      (n := d.m_count) (k := xs.length + d.m_capacity * 2) (by omega) (by omega)
    obtain ⟨m, hm, hmlen, hslice⟩ := write_behind (b := m₀) (w := xs.map some) (p := 0)
      (n := d.m_count) (by omega)
    rw [Nat.zero_add] at hm
    rw [← Option.bind_assoc, hm₀, Option.bind_some, hm, Option.bind_some]
    refine ⟨_, rfl, hmlen.trans hmlen₀, hcount', by dsimp only; omega, ?_⟩
    rw [hlen, hslice₀, helements, ← List.map_append] at hslice
    exact hslice

theorem pushfront_holds (h : d.Holds l) (xs : List α) :
    ∃ d', d.pushfront (xs.map some) = some d' ∧ d'.Holds (xs ++ l) := by
  obtain ⟨hblock, hcount, hfits, helements⟩ := h
  have hlen : (xs.map some).length = xs.length := List.length_map _
  have hcount' : d.m_count + xs.length = (xs ++ l).length := by
    rw [List.length_append, hcount, Nat.add_comm]
  unfold pushfront
  dsimp only
  rw [hlen, Option.bind_eq_bind]
  split_ifs with hhead hslide
  · -- In the room before the elements.
    obtain ⟨m, hm, hmlen, hslice⟩ := write_before (b := d.m_p) (w := xs.map some)
      (p := d.m_header - xs.length) (n := d.m_count) (by omega)
    rw [hm, Option.bind_some]
    refine ⟨_, rfl, hmlen.trans hblock, hcount', by dsimp only; omega, ?_⟩
    rw [hlen, Nat.sub_add_cancel hhead, helements, ← List.map_append, Nat.add_comm] at hslice
    exact hslice
  · -- Before the elements, which have been moved to the end.
    obtain ⟨m₀, hm₀, hmlen₀, hslice₀⟩ := memmove_slice (b := d.m_p) (p := d.m_header)
      (q := d.m_capacity - d.m_count) (n := d.m_count) (by omega) (by omega)
    obtain ⟨m, hm, hmlen, hslice⟩ := write_before (b := m₀) (w := xs.map some)
      (p := d.m_capacity - d.m_count - xs.length) (n := d.m_count) (by omega)
    rw [hm₀, Option.bind_some, hm, Option.bind_some]
    refine ⟨_, rfl, (hmlen.trans hmlen₀).trans hblock, hcount', by dsimp only; omega, ?_⟩
    rw [hlen, Nat.sub_add_cancel (Nat.le_of_lt hslide.1), hslice₀, helements, ← List.map_append,
      Nat.add_comm] at hslice
    exact hslice
  · -- Before a copy of the elements at the end of a new block.
    obtain ⟨m₀, hm₀, hmlen₀, hslice₀⟩ := copy_slice (b := d.m_p) (p := d.m_header)
      (q := xs.length + d.m_capacity * 2 - d.m_count - xs.length + xs.length)
      (n := d.m_count) (k := xs.length + d.m_capacity * 2) (by omega) (by omega)
    obtain ⟨m, hm, hmlen, hslice⟩ := write_before (b := m₀) (w := xs.map some)
      (p := xs.length + d.m_capacity * 2 - d.m_count - xs.length) (n := d.m_count) (by omega)
    rw [← Option.bind_assoc, hm₀, Option.bind_some, hm, Option.bind_some]
    refine ⟨_, rfl, hmlen.trans hmlen₀, hcount', by dsimp only; omega, ?_⟩
    rw [hlen, hslice₀, helements, ← List.map_append, Nat.add_comm xs.length d.m_count] at hslice
    exact hslice

theorem shrink_to_fit_holds (h : d.Holds l) : ∃ d', d.shrink_to_fit = some d' ∧ d'.Holds l := by
  obtain ⟨hblock, hcount, hfits, helements⟩ := h
  obtain ⟨m, hm, hmlen, hslice⟩ := copy_slice (b := d.m_p) (p := d.m_header) (q := 0)
    (n := d.m_count) (k := d.m_count) (by omega) (by omega)
  unfold shrink_to_fit
  rw [Option.bind_eq_bind, ← Option.bind_assoc, hm, Option.bind_some]
  exact ⟨_, rfl, hmlen, hcount, by dsimp only; omega, hslice.trans helements⟩

end CSafeDeque

/-! ### Sequences of operations -/

/-- The operations on a family of deques. A lock is `granted` or not. -/
inductive Op (ι α : Type)
  | push_back (i : ι) (p : List α) (granted : Bool)
  | push_front (i : ι) (p : List α) (granted : Bool)
  | pop_front (i : ι) (count : ℕ) (granted : Bool)
  | pop_back (i : ι) (count : ℕ) (granted : Bool)
  /-- `push_back(const CSafeDeque &sd)`, where deque `i` gets the elements of deque `sd`. -/
  | push_back_deque (i sd : ι) (granted : Bool)
  | push_front_deque (i sd : ι) (granted : Bool)
  | clear (i : ι)
  | shrink_to_fit (i : ι)
  | swap (i sd : ι)

variable {ι : Type} [DecidableEq ι]

/-- One operation. A null pointer counts as an empty list, and a thread is never granted the lock of
a deque that it has already. -/
def step (s : ι → CSafeDeque α) : Op ι α → Option (Result α × (ι → CSafeDeque α))
  | .push_back i p granted =>
    if p.length = 0 ∨ granted = false then some (⟨0, []⟩, s)
    else ((s i).pushback (p.map some)).map fun d ↦ (⟨p.length, []⟩, Function.update s i d)
  | .push_front i p granted =>
    if p.length = 0 ∨ granted = false then some (⟨0, []⟩, s)
    else ((s i).pushfront (p.map some)).map fun d ↦ (⟨p.length, []⟩, Function.update s i d)
  | .pop_front i count granted =>
    if count = 0 ∨ granted = false then some (⟨0, []⟩, s)
    else ((s i).popfront count).map fun (r, d) ↦ (r, Function.update s i d)
  | .pop_back i count granted =>
    if count = 0 ∨ granted = false then some (⟨0, []⟩, s)
    else ((s i).popback count).map fun (r, d) ↦ (r, Function.update s i d)
  | .push_back_deque i sd granted =>
    if (s sd).m_count = 0 ∨ granted = false ∨ i = sd then some (⟨0, []⟩, s)
    else do
      let p ← read (s sd).m_p (s sd).m_header (s sd).m_count
      let d ← (s i).pushback p
      some (⟨p.length, []⟩, Function.update s i d)
  | .push_front_deque i sd granted =>
    if (s sd).m_count = 0 ∨ granted = false ∨ i = sd then some (⟨0, []⟩, s)
    else do
      let p ← read (s sd).m_p (s sd).m_header (s sd).m_count
      let d ← (s i).pushfront p
      some (⟨p.length, []⟩, Function.update s i d)
  | .clear i => some (⟨0, []⟩, Function.update s i (s i).clear)
  | .shrink_to_fit i => (s i).shrink_to_fit.map fun d ↦ (⟨0, []⟩, Function.update s i d)
  | .swap i sd => some (⟨0, []⟩, Function.update (Function.update s i (s sd)) sd (s i))

/-- The same operation on lists. -/
def listStep (l : ι → List α) : Op ι α → Result α × (ι → List α)
  | .push_back i p granted =>
    if granted then (⟨p.length, []⟩, Function.update l i (l i ++ p)) else (⟨0, []⟩, l)
  | .push_front i p granted =>
    if granted then (⟨p.length, []⟩, Function.update l i (p ++ l i)) else (⟨0, []⟩, l)
  | .pop_front i count granted =>
    if granted then
      (⟨min count (l i).length, ((l i).take count).map some⟩,
        Function.update l i ((l i).drop count))
    else (⟨0, []⟩, l)
  | .pop_back i count granted =>
    if granted then
      (⟨min count (l i).length, ((l i).drop ((l i).length - count)).map some⟩,
        Function.update l i ((l i).take ((l i).length - count)))
    else (⟨0, []⟩, l)
  | .push_back_deque i sd granted =>
    if granted ∧ i ≠ sd then (⟨(l sd).length, []⟩, Function.update l i (l i ++ l sd))
    else (⟨0, []⟩, l)
  | .push_front_deque i sd granted =>
    if granted ∧ i ≠ sd then (⟨(l sd).length, []⟩, Function.update l i (l sd ++ l i))
    else (⟨0, []⟩, l)
  | .clear i => (⟨0, []⟩, Function.update l i [])
  | .shrink_to_fit _ => (⟨0, []⟩, l)
  | .swap i sd => (⟨0, []⟩, Function.update (Function.update l i (l sd)) sd (l i))

/-- Deque by deque, the block holds the elements of the list. -/
def Hold (s : ι → CSafeDeque α) (l : ι → List α) : Prop := ∀ i, (s i).Holds (l i)

section Step

variable {s : ι → CSafeDeque α} {l : ι → List α}

theorem Hold.update {i : ι} {d : CSafeDeque α} {xs : List α} (h : Hold s l) (hd : d.Holds xs) :
    Hold (Function.update s i d) (Function.update l i xs) := by
  intro j
  by_cases hj : j = i
  · subst hj
    rwa [Function.update_self, Function.update_self]
  · rw [Function.update_of_ne hj, Function.update_of_ne hj]
    exact h j

/-- An operation that leaves the elements of a deque as they are. -/
theorem Hold.update_same {i : ι} {d : CSafeDeque α} (h : Hold s l) (hd : d.Holds (l i)) :
    Hold (Function.update s i d) l := by
  have hup := h.update (i := i) hd
  rwa [Function.update_eq_self] at hup

omit [DecidableEq ι] in
/-- The elements that a push of a whole deque reads. -/
theorem Hold.read (h : Hold s l) (i : ι) :
    Block.read (s i).m_p (s i).m_header (s i).m_count = some ((l i).map some) := by
  have hi := h i
  have hfits : (s i).m_header + (s i).m_count ≤ (s i).m_p.length := hi.block ▸ hi.fits
  rw [read_eq_some hfits, hi.elements]

/-- **One operation** returns what it returns on lists, and leaves deques that hold the lists. -/
theorem step_refines (h : Hold s l) (op : Op ι α) :
    ∃ s', step s op = some ((listStep l op).1, s') ∧ Hold s' (listStep l op).2 := by
  cases op with
  | push_back i p granted =>
    simp only [step, listStep]
    cases granted with
    | false => exact ⟨s, by simp, h⟩
    | true =>
      by_cases hp : p.length = 0
      · have hnil : p = [] := List.length_eq_zero_iff.1 hp
        subst hnil
        exact ⟨s, by simp, by simpa using h⟩
      · obtain ⟨d, hd, hholds⟩ := CSafeDeque.pushback_holds (h i) p
        exact ⟨Function.update s i d, by simp [hp, hd], h.update hholds⟩
  | push_front i p granted =>
    simp only [step, listStep]
    cases granted with
    | false => exact ⟨s, by simp, h⟩
    | true =>
      by_cases hp : p.length = 0
      · have hnil : p = [] := List.length_eq_zero_iff.1 hp
        subst hnil
        exact ⟨s, by simp, by simpa using h⟩
      · obtain ⟨d, hd, hholds⟩ := CSafeDeque.pushfront_holds (h i) p
        exact ⟨Function.update s i d, by simp [hp, hd], h.update hholds⟩
  | pop_front i count granted =>
    simp only [step, listStep]
    cases granted with
    | false => exact ⟨s, by simp, h⟩
    | true =>
      by_cases hcount : count = 0
      · subst hcount
        exact ⟨s, by simp, by simpa using h⟩
      · obtain ⟨d, hd, hholds⟩ := CSafeDeque.popfront_holds (h i) count
        exact ⟨Function.update s i d, by simp [hcount, hd], h.update hholds⟩
  | pop_back i count granted =>
    simp only [step, listStep]
    cases granted with
    | false => exact ⟨s, by simp, h⟩
    | true =>
      by_cases hcount : count = 0
      · subst hcount
        exact ⟨s, by simp, by simpa using h⟩
      · obtain ⟨d, hd, hholds⟩ := CSafeDeque.popback_holds (h i) count
        exact ⟨Function.update s i d, by simp [hcount, hd], h.update hholds⟩
  | push_back_deque i sd granted =>
    simp only [step, listStep]
    by_cases hlock : granted ∧ i ≠ sd
    · obtain ⟨d, hd, hholds⟩ := CSafeDeque.pushback_holds (h i) (l sd)
      by_cases hzero : (s sd).m_count = 0
      · have hnil : l sd = [] := List.length_eq_zero_iff.1 ((h sd).count.symm.trans hzero)
        exact ⟨s, by simp [hzero, hlock, hnil], by simpa [hlock, hnil] using h⟩
      · exact ⟨Function.update s i d, by simp [hzero, hlock, h.read sd, hd],
          by simpa [hlock] using h.update hholds⟩
    · refine ⟨s, ?_, by simpa [hlock] using h⟩
      have hnot : granted = false ∨ i = sd := by
        cases granted with
        | false => exact .inl rfl
        | true => exact .inr (not_not.1 fun hne ↦ hlock ⟨rfl, hne⟩)
      rw [if_pos (.inr hnot), if_neg hlock]
  | push_front_deque i sd granted =>
    simp only [step, listStep]
    by_cases hlock : granted ∧ i ≠ sd
    · obtain ⟨d, hd, hholds⟩ := CSafeDeque.pushfront_holds (h i) (l sd)
      by_cases hzero : (s sd).m_count = 0
      · have hnil : l sd = [] := List.length_eq_zero_iff.1 ((h sd).count.symm.trans hzero)
        exact ⟨s, by simp [hzero, hlock, hnil], by simpa [hlock, hnil] using h⟩
      · exact ⟨Function.update s i d, by simp [hzero, hlock, h.read sd, hd],
          by simpa [hlock] using h.update hholds⟩
    · refine ⟨s, ?_, by simpa [hlock] using h⟩
      have hnot : granted = false ∨ i = sd := by
        cases granted with
        | false => exact .inl rfl
        | true => exact .inr (not_not.1 fun hne ↦ hlock ⟨rfl, hne⟩)
      rw [if_pos (.inr hnot), if_neg hlock]
  | clear i => exact ⟨_, rfl, h.update (CSafeDeque.clear_holds (h i))⟩
  | shrink_to_fit i =>
    obtain ⟨d, hd, hholds⟩ := CSafeDeque.shrink_to_fit_holds (h i)
    exact ⟨Function.update s i d, by simp [step, listStep, hd], h.update_same hholds⟩
  | swap i sd => exact ⟨_, rfl, (h.update (h sd)).update (h i)⟩

end Step

end SocketPro.Deque
