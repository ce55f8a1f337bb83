import Mathlib.Data.List.Basic
import Mathlib.Order.Lattice

/-!
# Sorted association lists

A map with ordered keys as the list of its entries by strictly increasing key. `set` inserts or
replaces in one pass; what it does to `List.lookup` needs no order. A list that is sorted is known
by its lookups (`lookup_eq_some_iff`).
-/

namespace SortedMap

variable {κ α β : Type} [LinearOrder κ]

/-- `map[key] = value`. -/
def set (key : κ) (value : α) : List (κ × α) → List (κ × α)
  | [] => [(key, value)]
  | m :: ms =>
    if key < m.1 then (key, value) :: m :: ms
    else if key = m.1 then (key, value) :: ms
    else m :: set key value ms

/-- The keys are strictly increasing. -/
def Sorted (ms : List (κ × α)) : Prop := (ms.map Prod.fst).Pairwise (· < ·)

variable {key k : κ} {value : α} {ms : List (κ × α)}

section Lookup

variable [BEq κ] [LawfulBEq κ]

theorem lookup_cons_eq (m : κ × α) (ms : List (κ × α)) (k : κ) :
    List.lookup k (m :: ms) = if k = m.1 then some m.2 else ms.lookup k := by
  rw [List.lookup_cons]
  by_cases hk : k = m.1
  · rw [if_pos hk, beq_iff_eq.2 hk]
  · rw [if_neg hk, beq_false_of_ne hk]

theorem lookup_set (key k : κ) (value : α) (ms : List (κ × α)) :
    (set key value ms).lookup k = if k = key then some value else ms.lookup k := by
  induction ms with
  | nil => exact lookup_cons_eq (key, value) [] k
  | cons m ms ih =>
    rw [set]
    split
    · exact lookup_cons_eq (key, value) (m :: ms) k
    · split
      · rename_i hkey
        rw [lookup_cons_eq, lookup_cons_eq, ← hkey]
        by_cases hk : k = key
        · rw [if_pos hk, if_pos hk]
        · rw [if_neg hk, if_neg hk, if_neg hk]
      · rename_i hkey
        rw [lookup_cons_eq, lookup_cons_eq, ih]
        by_cases hk : k = m.1
        · rw [if_pos hk, if_pos hk, if_neg fun h ↦ hkey (h.symm.trans hk)]
        · rw [if_neg hk, if_neg hk]

end Lookup

theorem mem_set {m : κ × α} (hm : m ∈ set key value ms) : m = (key, value) ∨ m ∈ ms := by
  induction ms with
  | nil => exact .inl (List.mem_singleton.1 hm)
  | cons m' ms ih =>
    rw [set] at hm
    split at hm
    · exact List.mem_cons.1 hm
    · split at hm
      · exact (List.mem_cons.1 hm).imp_right (List.mem_cons_of_mem _)
      · rcases List.mem_cons.1 hm with rfl | hm
        · exact .inr List.mem_cons_self
        · exact (ih hm).imp_right (List.mem_cons_of_mem _)

theorem sorted_cons {m : κ × α} : Sorted (m :: ms) ↔ (∀ n ∈ ms, m.1 < n.1) ∧ Sorted ms := by
  rw [Sorted, List.map_cons, List.pairwise_cons, List.forall_mem_map]
  rfl

theorem sorted_nil : Sorted ([] : List (κ × α)) := List.Pairwise.nil

theorem sorted_set (h : Sorted ms) (key : κ) (value : α) : Sorted (set key value ms) := by
  induction ms with
  | nil => exact List.pairwise_singleton _ _
  | cons m ms ih =>
    obtain ⟨hm, hms⟩ := sorted_cons.1 h
    rw [set]
    split
    · rename_i hlt
      refine sorted_cons.2 ⟨List.forall_mem_cons.2 ⟨hlt, fun n hn ↦ ?_⟩, h⟩
      exact lt_trans hlt (hm n hn)
    · rename_i hle
      split
      · rename_i heq
        exact sorted_cons.2 ⟨heq ▸ hm, hms⟩
      · rename_i hne
        refine sorted_cons.2 ⟨fun n hn ↦ ?_, ih hms⟩
        rcases mem_set hn with rfl | hn
        · exact lt_of_le_of_ne (not_lt.1 hle) (Ne.symm hne)
        · exact hm n hn

/-- A key behind all others goes to the end. -/
theorem set_of_forall_lt (value : α) (h : ∀ m ∈ ms, m.1 < key) :
    set key value ms = ms ++ [(key, value)] := by
  induction ms with
  | nil => rfl
  | cons m ms ih =>
    obtain ⟨hm, hms⟩ := List.forall_mem_cons.1 h
    rw [set, if_neg (not_lt_of_gt hm), if_neg (ne_of_lt hm).symm, ih hms]
    rfl

/-- **Building a map** from the entries of a sorted one, with other values, in their order. -/
theorem foldl_set (f : κ × α → β) {ms : List (κ × α)} {ns : List (κ × β)} (h : Sorted ms)
    (hns : ∀ n ∈ ns, ∀ m ∈ ms, n.1 < m.1) :
    ms.foldl (fun ns m ↦ set m.1 (f m) ns) ns = ns ++ ms.map fun m ↦ (m.1, f m) := by
  induction ms generalizing ns with
  | nil => exact (List.append_nil ns).symm
  | cons m ms ih =>
    obtain ⟨hm, hms⟩ := sorted_cons.1 h
    rw [List.foldl_cons, set_of_forall_lt _ fun n hn ↦ hns n hn m List.mem_cons_self,
      ih hms fun n hn m' hm' ↦ ?_, List.map_cons, List.append_assoc]
    · rfl
    · rcases List.mem_append.1 hn with hn | hn
      · exact hns n hn m' (List.mem_cons_of_mem m hm')
      · rw [List.mem_singleton.1 hn]
        exact hm m' hm'

section Lookup

variable [BEq κ] [LawfulBEq κ]

theorem lookup_eq_some_iff (h : Sorted ms) : ms.lookup k = some value ↔ (k, value) ∈ ms := by
  induction ms with
  | nil => simp
  | cons m ms ih =>
    obtain ⟨hm, hms⟩ := sorted_cons.1 h
    rw [lookup_cons_eq, List.mem_cons]
    split
    · rename_i hk
      constructor
      · rintro ⟨⟩
        exact .inl (Prod.ext hk rfl)
      · rintro (rfl | hmem)
        · rfl
        · exact absurd (hm _ hmem) (hk ▸ lt_irrefl _)
    · rename_i hk
      rw [ih hms]
      exact (or_iff_right fun heq ↦ hk (congrArg Prod.fst heq)).symm

theorem mem_keys_iff : (ms.lookup k).isSome ↔ ∃ m ∈ ms, m.1 = k := by
  induction ms with
  | nil => simp
  | cons m ms ih =>
    rw [lookup_cons_eq, List.exists_mem_cons_iff]
    split
    · rename_i hk
      exact ⟨fun _ ↦ .inl hk.symm, fun _ ↦ rfl⟩
    · rename_i hk
      rw [ih]
      exact (or_iff_right fun heq ↦ hk heq.symm).symm

end Lookup

end SortedMap
