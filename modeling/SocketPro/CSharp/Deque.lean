import SocketPro.CSharp.CallbackOutcomes
import SocketPro.Foundation.Ring

/-!
# The C# `Deque` and the end of an aborted job

`Deque<T>` of `deque.cs`: the elements lie in a circular array from `offset` on. `RemoveRange` checks
its range and then cuts it off at an end, or closes the gap from the side with fewer elements.
`RemoveRange` is the removal of a range from a list (`toList_removeRange`).

**`EraseBack`** calls `Discarded` for the last entries of `m_kvCallback`. Its loop counts `start` up
to the number of entries, and `start` is then passed to `RemoveRange` as where the range begins: the
range lies behind the end, and its check throws unless the range is empty
(`eraseBack_discardsJob_iff`).
-/

namespace SocketPro.CSharp

/-- What `CheckRangeArguments` and `CheckExistingIndexArgument` throw. -/
inductive RangeError
  | argumentOutOfRange (paramName : String)
  | argument
deriving DecidableEq

/-- `Deque<T>`. -/
structure Deque (α : Type) where
  Capacity : ℕ
  buffer : Vector α Capacity
  offset : ℕ
  Count : ℕ
  offset_lt : offset < Capacity
  fits : Count ≤ Capacity

namespace Deque

variable {α : Type} (d : Deque α)

instance : NeZero d.Capacity := ⟨(Nat.zero_lt_of_lt d.offset_lt).ne'⟩

/-- What the enumerator yields. -/
def toList : List α := Ring.view d.buffer d.offset d.Count

/-- `DoGetItem`. -/
def DoGetItem (index : ℕ) : α := Ring.cell d.buffer d.offset index

/-- `this[index]`, behind `CheckExistingIndexArgument`. -/
def getItem (index : ℤ) : Except RangeError α :=
  if index < 0 ∨ index ≥ d.Count then .error (.argumentOutOfRange "index")
  else .ok (d.DoGetItem index.toNat)

/-- `PostIncrement` with the new array, and the smaller `Count`. -/
def rotated (buffer : Vector α d.Capacity) (value : ℕ) : Deque α where
  Capacity := d.Capacity
  buffer := buffer
  offset := (d.offset + value) % d.Capacity
  Count := d.Count - value
  offset_lt := Nat.mod_lt _ (Nat.zero_lt_of_lt d.offset_lt)
  fits := le_trans (Nat.sub_le _ _) d.fits

/-- The new array, and the smaller `Count`. -/
def trimmed (buffer : Vector α d.Capacity) (value : ℕ) : Deque α where
  Capacity := d.Capacity
  buffer := buffer
  offset := d.offset
  Count := d.Count - value
  offset_lt := d.offset_lt
  fits := le_trans (Nat.sub_le _ _) d.fits

/-- `DoRemoveRange`. -/
def DoRemoveRange (index collectionCount : ℕ) : Deque α :=
  if index = 0 then d.rotated d.buffer collectionCount
  else if index = d.Count - collectionCount then d.trimmed d.buffer collectionCount
  else if index + collectionCount / 2 < d.Count / 2 then
    let copyCount := index
    let writeIndex := collectionCount
    d.rotated (Ring.copyUp d.buffer d.offset writeIndex 0 copyCount) collectionCount
  else
    let copyCount := d.Count - collectionCount - index
    let readIndex := index + collectionCount
    d.trimmed (Ring.copyDown d.buffer d.offset index readIndex copyCount) collectionCount

/-- `CheckRangeArguments`. -/
def CheckRangeArguments (sourceLength offset count : ℤ) : Except RangeError Unit :=
  if offset < 0 then .error (.argumentOutOfRange "offset")
  else if count < 0 then .error (.argumentOutOfRange "count")
  else if sourceLength - offset < count then .error .argument
  else .ok ()

/-- `RemoveRange`. -/
def RemoveRange (offset count : ℤ) : Except RangeError (Deque α) :=
  match CheckRangeArguments d.Count offset count with
  | .error e => .error e
  | .ok () => if count = 0 then .ok d else .ok (d.DoRemoveRange offset.toNat count.toNat)

/-! ### The deque as a list -/

@[simp]
theorem length_toList : d.toList.length = d.Count := Ring.length_view d.buffer

theorem getElem?_toList {i : ℕ} (hi : i < d.Count) : d.toList[i]? = some (d.DoGetItem i) := by
  rw [toList, Ring.getElem?_view, if_pos hi, DoGetItem]

/-- **A range is cut out**, from whichever side the gap is closed. -/
theorem toList_doRemoveRange {index collectionCount : ℕ}
    (hrange : index + collectionCount ≤ d.Count) :
    (d.DoRemoveRange index collectionCount).toList =
      d.toList.take index ++ d.toList.drop (index + collectionCount) := by
  have hfits := d.fits
  have hcount : collectionCount + (d.Count - collectionCount) = d.Count := by omega
  rw [DoRemoveRange]
  split_ifs with hfront hback hfirst
  · rw [hfront, Nat.zero_add, List.take_zero, List.nil_append, toList, rotated, Ring.view_shift,
      hcount, toList]
  · rw [List.drop_of_length_le (by rw [length_toList]; omega), List.append_nil, hback]
    exact Ring.view_take d.buffer (Nat.sub_le d.Count collectionCount)
  · exact Ring.view_copyUp d.buffer hfits (by omega)
  · exact Ring.view_copyDown d.buffer (by omega) rfl hfits

theorem checkRangeArguments_eq_error {sourceLength offset count : ℤ}
    (h : offset < 0 ∨ count < 0 ∨ sourceLength - offset < count) :
    ∃ e, CheckRangeArguments sourceLength offset count = .error e := by
  rw [CheckRangeArguments]
  split_ifs
  · exact ⟨_, rfl⟩
  · exact ⟨_, rfl⟩
  · exact ⟨_, rfl⟩
  · omega

theorem checkRangeArguments_eq_ok {sourceLength offset count : ℤ}
    (h : ¬ (offset < 0 ∨ count < 0 ∨ sourceLength - offset < count)) :
    CheckRangeArguments sourceLength offset count = .ok () := by
  rw [CheckRangeArguments, if_neg (by omega), if_neg (by omega), if_neg (by omega)]

end Deque

/-! ### The end of an aborted job -/

namespace AsyncHandler

variable {κ : Type}

/-- What `EraseBack` leaves: the deque, the delegates it has invoked, and what it has thrown. -/
structure Erasure (κ : Type) where
  m_kvCallback : Deque (MyKeyValue κ)
  invoked : List (ℕ × Notice κ)
  thrown : Option RangeError

/-- `for (; start < total; ++start)`: the delegates invoked, and `start` behind the loop. -/
def discardLoop (m_kvCallback : Deque (MyKeyValue κ)) (total start : ℤ) :
    List (ℕ × Notice κ) × Except RangeError ℤ :=
  if start < total then
    match m_kvCallback.getItem start with
    | .error e => ([], .error e)
    | .ok p =>
      let r := discardLoop m_kvCallback total (start + 1)
      (invoke p (.givenUp true) ++ r.1, r.2)
  else ([], .ok start)
termination_by (total - start).toNat

/-- `EraseBack(count)`. -/
def EraseBack (m_kvCallback : Deque (MyKeyValue κ)) (count : ℤ) : Erasure κ :=
  let total : ℤ := m_kvCallback.Count
  let count := if count > total then total else count
  match discardLoop m_kvCallback total (total - count) with
  | (invoked, .error e) => ⟨m_kvCallback, invoked, some e⟩
  | (invoked, .ok start) =>
    match m_kvCallback.RemoveRange start count with
    | .error e => ⟨m_kvCallback, invoked, some e⟩
    | .ok q => ⟨q, invoked, none⟩

/-- **Exactly the job is discarded.** Nothing is thrown, `Discarded` of each of the last `count`
entries is invoked once, in order, and the earlier entries are left. -/
structure DiscardsJob (m_kvCallback : Deque (MyKeyValue κ)) (count : ℤ) : Prop where
  ends : (EraseBack m_kvCallback count).thrown = none
  discarded : (EraseBack m_kvCallback count).invoked =
    (m_kvCallback.toList.drop (m_kvCallback.Count - count.toNat)).flatMap
      fun p ↦ invoke p (.givenUp true)
  left : (EraseBack m_kvCallback count).m_kvCallback.toList =
    m_kvCallback.toList.take (m_kvCallback.Count - count.toNat)

section

variable (d : Deque (MyKeyValue κ))

/-- The loop passes the last entries and ends behind them. -/
theorem discardLoop_eq {k : ℕ} (hk : k ≤ d.Count) :
    discardLoop d d.Count (d.Count - k : ℤ) =
      ((d.toList.drop (d.Count - k)).flatMap fun p ↦ invoke p (.givenUp true), .ok d.Count) := by
  induction k with
  | zero =>
    rw [discardLoop, if_neg (by omega), Nat.sub_zero,
      List.drop_of_length_le d.length_toList.le, Nat.cast_zero, sub_zero]
    rfl
  | succ k ih =>
    have hnext : (d.Count - (k + 1 : ℕ) : ℤ) + 1 = d.Count - k := by omega
    have hplace : d.Count - (k + 1) + 1 = d.Count - k := by omega
    have hitem : d.getItem (d.Count - (k + 1 : ℕ) : ℤ) =
        .ok (d.DoGetItem (d.Count - (k + 1))) := by
      rw [Deque.getItem, if_neg (by omega)]
      congr 2
      omega
    have hdrop : d.toList.drop (d.Count - (k + 1)) =
        d.DoGetItem (d.Count - (k + 1)) :: d.toList.drop (d.Count - k) := by
      rw [← hplace]
      exact List.drop_eq_getElem?_toList_append.trans
        (by rw [d.getElem?_toList (by omega)]; rfl)
    rw [discardLoop, if_pos (by omega), hitem, hnext, ih (by omega), hdrop, List.flatMap_cons]

/-- **What `EraseBack` does.** It discards the last entries, removes none, and throws unless there
was nothing to discard. -/
theorem eraseBack_eq {count : ℤ} (hcount : 0 ≤ count) :
    EraseBack d count =
      ⟨d, (d.toList.drop (d.Count - count.toNat)).flatMap fun p ↦ invoke p (.givenUp true),
        if count = 0 ∨ d.Count = 0 then none else some .argument⟩ := by
  have hclamp : (if count > d.Count then (d.Count : ℤ) else count) =
      (min count.toNat d.Count : ℕ) := by
    split <;> omega
  have hplace : d.Count - min count.toNat d.Count = d.Count - count.toNat := by omega
  have hloop := discardLoop_eq d (Nat.min_le_right count.toNat d.Count)
  rw [hplace] at hloop
  rw [EraseBack]
  simp only [hclamp, hloop, Deque.RemoveRange, Deque.CheckRangeArguments]
  rw [if_neg (by omega), if_neg (by omega), sub_self]
  by_cases hnone : count = 0 ∨ d.Count = 0
  · rw [if_pos hnone, if_neg (by omega)]
    dsimp only
    rw [if_pos (by omega)]
  · rw [if_neg hnone, if_pos (by omega)]

/-- **When exactly the job is discarded.** When there is nothing to discard. -/
theorem eraseBack_discardsJob_iff {count : ℤ} (hcount : 0 ≤ count) :
    DiscardsJob d count ↔ count = 0 ∨ d.toList = [] := by
  have hnil : d.toList = [] ↔ d.Count = 0 := by
    rw [← List.length_eq_zero_iff, d.length_toList]
  rw [hnil]
  have heq := eraseBack_eq d hcount
  constructor
  · intro h
    by_contra hsome
    have hends := h.ends
    rw [heq, if_neg hsome] at hends
    exact absurd hends (Option.some_ne_none _)
  · intro hnone
    refine ⟨?_, ?_, ?_⟩
    · rw [heq, if_pos hnone]
    · rw [heq]
    · rw [heq, List.take_of_length_le (by rw [d.length_toList]; omega)]

/-- The requests 0x2101 and 0x2102, the second one at the start of the array. -/
def twoRequests : Deque (MyKeyValue ℕ) where
  Capacity := 2
  buffer := ⟨#[⟨0x2102, ⟨none, some 2, none⟩, 1⟩, ⟨0x2101, ⟨none, some 1, none⟩, 0⟩], rfl⟩
  offset := 1
  Count := 2
  offset_lt := by decide
  fits := by decide

/-- A job of one request is not removed. -/
theorem twoRequests_not_discardsJob : ¬ DiscardsJob twoRequests 1 := by
  intro h
  rcases (eraseBack_discardsJob_iff twoRequests (by decide)).1 h with hzero | hnil
  · exact absurd hzero (by decide)
  · exact absurd (congrArg List.length hnil) (by decide)

/-- **`RemoveRange` throws**, and the request of the job stays in the deque though its `Discarded`
has been called. -/
theorem not_discardsJob :
    (EraseBack twoRequests 1).thrown = some .argument ∧
      (EraseBack twoRequests 1).invoked = [(1, .Discarded 2 true)] ∧
      (EraseBack twoRequests 1).m_kvCallback.Count = 2 ∧
      ¬ ∀ (d : Deque (MyKeyValue ℕ)) (count : ℤ), 0 ≤ count → DiscardsJob d count := by
  have heq := eraseBack_eq twoRequests (show (0 : ℤ) ≤ 1 by decide)
  refine ⟨by rw [heq]; decide, by rw [heq]; decide, by rw [heq]; decide, fun hall ↦ ?_⟩
  have hends := (hall twoRequests 1 (by decide)).ends
  rw [heq] at hends
  exact absurd hends (by decide)

end

end AsyncHandler

end SocketPro.CSharp
