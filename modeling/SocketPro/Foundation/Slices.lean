import SocketPro.Foundation.Block

/-!
# Arrays and views of them

A store is a list of arrays, numbered in the order in which they were made. A view is a part of one
array: its number, where the part starts, and how long it is. Copying a view copies no elements, so
that a later write into the array is seen through it.

**Frame rules.** A write is not seen through a view that lies apart from it (`read_write_apart`),
and making a new array is not seen through any view of an array that is there (`read_alloc`). What
has just been written is read back (`read_write_self`), and a part that grows at its end by what is
written there holds both one behind the other (`read_write_grow`).
-/

namespace Machine

/-- Arrays, by their numbers. -/
abbrev Store (α : Type*) := List (List α)

/-- A part of an array. -/
structure View where
  array : ℕ
  start : ℕ
  length : ℕ
deriving DecidableEq, Repr

variable {α : Type*}

namespace Store

/-- The elements of an array; there are none in an array that does not exist. -/
def elements (m : Store α) (a : ℕ) : List α := m[a]?.getD []

/-- What is seen through a view. -/
def read (m : Store α) (v : View) : List α :=
  Block.slice v.start v.length (m.elements v.array)

/-- Write into an array. -/
def write (m : Store α) (a pos : ℕ) (xs : List α) : Store α := m.modify a (Block.overwrite pos xs)

/-- A new array has the next number. -/
def alloc (m : Store α) (l : List α) : Store α := m ++ [l]

end Store

namespace View

/-- The view lies in an array of the store. -/
def Valid (m : Store α) (v : View) : Prop :=
  v.array < m.length ∧ v.start + v.length ≤ (m.elements v.array).length

/-- No element of the view is among the `n` elements of array `a` from `pos` on. -/
def Apart (v : View) (a pos n : ℕ) : Prop :=
  v.array ≠ a ∨ v.length = 0 ∨ n = 0 ∨ v.start + v.length ≤ pos ∨ pos + n ≤ v.start

instance (v : View) (a pos n : ℕ) : Decidable (v.Apart a pos n) := by
  unfold Apart
  infer_instance

theorem Apart.mono {v : View} {a pos pos' n n' : ℕ} (h : v.Apart a pos n) (hpos : pos ≤ pos')
    (hn : pos' + n' ≤ pos + n) : v.Apart a pos' n' := by
  rcases h with h | h | h | h | h
  · exact .inl h
  · exact .inr (.inl h)
  · exact .inr (.inr (.inl (by omega)))
  · exact .inr (.inr (.inr (.inl (by omega))))
  · exact .inr (.inr (.inr (.inr (by omega))))

/-- Two parts one behind the other. -/
theorem Apart.append {v : View} {a pos n k : ℕ} (h : v.Apart a pos n) (hk : v.Apart a (pos + n) k) :
    v.Apart a pos (n + k) := by
  unfold Apart at *
  omega

end View

/-! ### Frame rules -/

namespace Store

variable {m : Store α} {v : View} {a pos : ℕ} {xs l : List α}

theorem elements_alloc_of_lt (h : a < m.length) : (m.alloc l).elements a = m.elements a := by
  rw [elements, elements, alloc, List.getElem?_append_left h]

@[simp] theorem elements_alloc_self : (m.alloc l).elements m.length = l := by
  rw [elements, alloc, List.getElem?_append_right (Nat.le_refl _), Nat.sub_self]
  rfl

@[simp] theorem length_alloc : (m.alloc l).length = m.length + 1 := by
  rw [alloc, List.length_append]
  rfl

@[simp] theorem length_write : (m.write a pos xs).length = m.length := List.length_modify _ _ _

theorem elements_write_self (h : a < m.length) :
    (m.write a pos xs).elements a = Block.overwrite pos xs (m.elements a) := by
  rw [elements, elements, write, List.getElem?_modify_eq, List.getElem?_eq_getElem h]
  rfl

theorem elements_write_of_ne {b : ℕ} (h : b ≠ a) :
    (m.write a pos xs).elements b = m.elements b := by
  rw [elements, elements, write, List.getElem?_modify_ne _ _ h.symm]

/-- Arrays keep their lengths. -/
theorem length_elements_write (h : pos + xs.length ≤ (m.elements a).length) (b : ℕ) :
    ((m.write a pos xs).elements b).length = (m.elements b).length := by
  rcases eq_or_ne b a with rfl | hne
  · rcases Nat.lt_or_ge b m.length with hlt | hge
    · rw [elements_write_self hlt, Block.length_overwrite h]
    · have hwrite : m.write b pos xs = m := List.modify_eq_self hge
      rw [hwrite]
  · rw [elements_write_of_ne hne]

/-- **A write is not seen through a view that lies apart from it.** -/
theorem read_write_apart (h : v.Apart a pos xs.length) (ha : a < m.length)
    (hpos : pos ≤ (m.elements a).length) : (m.write a pos xs).read v = m.read v := by
  rw [read, read]
  rcases eq_or_ne v.array a with hv | hne
  · rw [hv, elements_write_self ha]
    rcases h with h | h | h | h | h
    · exact absurd hv h
    · rw [h, Block.slice_zero, Block.slice_zero]
    · rw [List.length_eq_zero_iff.1 h, Block.overwrite, List.append_nil, List.length_nil,
        Nat.add_zero, List.take_append_drop]
    · exact Block.slice_overwrite_before hpos h
    · exact Block.slice_overwrite_after hpos h
  · rw [elements_write_of_ne hne]

/-- **A new array is not seen through a view of another one.** -/
theorem read_alloc (h : v.array < m.length) : (m.alloc l).read v = m.read v := by
  rw [read, read, elements_alloc_of_lt h]

@[simp] theorem read_zero (m : Store α) (a s : ℕ) : m.read ⟨a, s, 0⟩ = [] := Block.slice_zero

/-- A new array that begins with an old one shows the same. -/
theorem read_alloc_append {s n : ℕ} (h : s + n ≤ (m.elements a).length) :
    (m.alloc (m.elements a ++ l)).read ⟨m.length, s, n⟩ = m.read ⟨a, s, n⟩ := by
  rw [read, elements_alloc_self, read, ← Block.slice_take h, List.take_left]

/-- **What has been written is read back.** -/
theorem read_write_self (ha : a < m.length) (h : pos + xs.length ≤ (m.elements a).length) :
    (m.write a pos xs).read ⟨a, pos, xs.length⟩ = xs := by
  have hpos : pos ≤ (m.elements a).length := by omega
  rw [read, elements_write_self ha]
  exact Block.slice_overwrite hpos

/-- A view of two parts one behind the other. -/
theorem read_append (m : Store α) (a s n k : ℕ) :
    m.read ⟨a, s, n + k⟩ = m.read ⟨a, s, n⟩ ++ m.read ⟨a, s + n, k⟩ := Block.slice_add

/-- A part of what is seen through a view. -/
theorem read_part (m : Store α) (a s : ℕ) {n i k : ℕ} (h : i + k ≤ n) :
    m.read ⟨a, s + i, k⟩ = ((m.read ⟨a, s, n⟩).drop i).take k := by
  have hk : k ≤ n - i := by omega
  rw [read, read, Block.drop_slice, Block.take_slice hk]

theorem length_read (h : v.Valid m) : (m.read v).length = v.length := Block.length_slice h.2

/-- **A part that grows at its end** by what is written there. -/
theorem read_write_grow {s n : ℕ} (ha : a < m.length)
    (h : s + n + xs.length ≤ (m.elements a).length) :
    (m.write a (s + n) xs).read ⟨a, s, n + xs.length⟩ = m.read ⟨a, s, n⟩ ++ xs := by
  have hfront : View.Apart ⟨a, s, n⟩ a (s + n) xs.length :=
    .inr (.inr (.inr (.inl (Nat.le_refl _))))
  rw [read_append, read_write_self ha h, read_write_apart hfront ha (by omega)]

/-- A write in the middle of what is seen through a view. -/
theorem read_write_inside {s n i : ℕ} (ha : a < m.length) (hi : i + xs.length ≤ n)
    (h : s + n ≤ (m.elements a).length) :
    (m.write a (s + i) xs).read ⟨a, s, n⟩ = Block.overwrite i xs (m.read ⟨a, s, n⟩) := by
  obtain ⟨k, rfl⟩ : ∃ k, n = i + xs.length + k := ⟨n - i - xs.length, by omega⟩
  have hfront : View.Apart ⟨a, s, i⟩ a (s + i) xs.length :=
    .inr (.inr (.inr (.inl (Nat.le_refl _))))
  have hbehind : View.Apart ⟨a, s + (i + xs.length), k⟩ a (s + i) xs.length :=
    .inr (.inr (.inr (.inr (Nat.le_of_eq (Nat.add_assoc _ _ _)))))
  have hpos : s + i ≤ (m.elements a).length := by omega
  have hinside : s + i + xs.length ≤ (m.elements a).length := by omega
  have hlen : (m.read ⟨a, s, i⟩).length = i := length_read ⟨ha, hpos⟩
  have hmiddle : (m.read ⟨a, s + i, xs.length⟩).length = xs.length := length_read ⟨ha, hinside⟩
  rw [read_append, read_append, read_write_apart hfront ha hpos, read_write_self ha (by omega),
    read_write_apart hbehind ha hpos, read_append m a s (i + xs.length) k, read_append m a s i,
    Block.overwrite, List.append_assoc, List.append_assoc, List.append_assoc,
    List.take_left' hlen, ← List.drop_drop, List.drop_left' hlen, List.drop_left' hmiddle]

end Store

/-! ### Stores that grow -/

/-- The arrays that are there stay, with their lengths. -/
structure Store.Grows (m m' : Store α) : Prop where
  length_le : m.length ≤ m'.length
  same : ∀ a < m.length, (m'.elements a).length = (m.elements a).length

namespace Store.Grows

variable {m m' m'' : Store α} {a pos : ℕ} {xs l : List α}

theorem refl (m : Store α) : m.Grows m := ⟨Nat.le_refl _, fun _ _ ↦ rfl⟩

theorem trans (h : m.Grows m') (h' : m'.Grows m'') : m.Grows m'' :=
  ⟨Nat.le_trans h.length_le h'.length_le, fun a ha ↦
    (h'.same a (Nat.lt_of_lt_of_le ha h.length_le)).trans (h.same a ha)⟩

theorem alloc (m : Store α) (l : List α) : m.Grows (m.alloc l) where
  length_le := by
    rw [length_alloc]
    exact Nat.le_succ _
  same a ha := by rw [elements_alloc_of_lt ha]

theorem write (h : pos + xs.length ≤ (m.elements a).length) : m.Grows (m.write a pos xs) where
  length_le := Nat.le_of_eq length_write.symm
  same b _ := length_elements_write h b

/-- A view stays valid. -/
theorem valid {v : View} (h : m.Grows m') (hv : v.Valid m) : v.Valid m' := by
  refine ⟨Nat.lt_of_lt_of_le hv.1 h.length_le, ?_⟩
  rw [h.same _ hv.1]
  exact hv.2

end Store.Grows

end Machine
