import SocketPro.Buffer.WireFormat

/-!
# The reader reads the items and goes wrong at the hazards

Everything is stated for a content `pre ++ tail` of less than 2^32 bytes that is read at position
`pre.length`, so that the bytes before the position are the same list before and after.

Three facts for each part of the reader, from the byte level up to whole variants:

* where an item begins, it is read, and what follows it is left (`_ok`);
* at a hazard the reader is at fault (`_fault`);
* whatever the bytes are, a return means that an item has been read, and a fault that there is a
  hazard (`_meets`).
-/

namespace SocketPro.Buffer

open Bytes Machine Effect

variable {pre tail rest : List UInt8}

/-! ### Bytes and numbers -/

theorem popInto_ok {raw : List UInt8} {room : ℕ} (hroom : raw.length ≤ room)
    (hsize : pre.length + (raw ++ rest).length < 2 ^ 32) :
    popInto room raw.length pre.length (pre ++ (raw ++ rest)) = .ok raw (pre ++ rest) := by
  rw [List.length_append] at hsize
  have hmod : (raw.length + pre.length) % 2 ^ 32 = raw.length + pre.length :=
    Nat.mod_eq_of_lt (by omega)
  have hcheck : ¬ (pre ++ (raw ++ rest)).length < raw.length + pre.length := by
    simp only [List.length_append]
    omega
  have hin : pre.length + raw.length ≤ (pre ++ (raw ++ rest)).length ∧ raw.length ≤ room := by
    refine ⟨?_, hroom⟩
    simp only [List.length_append]
    omega
  rw [popInto, hmod, if_neg hcheck, if_pos hin, removeAt_append rfl, List.drop_left,
    List.take_left, List.drop_left]

theorem popInto_fault {room len : ℕ} (hlen : len < 2 ^ 32)
    (hsize : pre.length + tail.length < 2 ^ 32) (hwrap : 2 ^ 32 ≤ pre.length + len) :
    popInto room len pre.length (pre ++ tail) = .fault := by
  -- The sum wraps below the position, so the check passes.
  have hcheck : ¬ (pre ++ tail).length < (len + pre.length) % 2 ^ 32 := by
    rw [List.length_append]
    omega
  have hout : ¬ (pre.length + len ≤ (pre ++ tail).length ∧ len ≤ room) := by
    rw [List.length_append]
    omega
  rw [popInto, if_neg hcheck, if_neg hout]

theorem popInto_meets {room len : ℕ} (hlen : len < 2 ^ 32)
    (hsize : pre.length + tail.length < 2 ^ 32) (hroom : len ≤ tail.length → len ≤ room) :
    Meets (popInto room len pre.length) (pre ++ tail)
      (fun raw c ↦ ∃ rest, tail = raw ++ rest ∧ raw.length = len ∧ c = pre ++ rest)
      (2 ^ 32 ≤ pre.length + len) := by
  by_cases hwrap : 2 ^ 32 ≤ pre.length + len
  · exact .of_fault (popInto_fault hlen hsize hwrap) hwrap
  by_cases hle : len ≤ tail.length
  · have htail : tail = tail.take len ++ tail.drop len := (List.take_append_drop len tail).symm
    have htake : (tail.take len).length = len := List.length_take_of_le hle
    have hok : popInto room (tail.take len).length pre.length
        (pre ++ (tail.take len ++ tail.drop len)) = _ :=
      popInto_ok (htake.le.trans (hroom hle)) (by rwa [List.take_append_drop])
    rw [htake, List.take_append_drop] at hok
    exact .of_ok hok ⟨_, htail, htake, rfl⟩
  · have hcheck : (pre ++ tail).length < (len + pre.length) % 2 ^ 32 := by
      rw [List.length_append, Nat.mod_eq_of_lt (by omega)]
      omega
    refine .of_throw (e := .remainingData) (t := pre ++ tail) ?_
    rw [popInto, if_pos hcheck]

theorem popNumber_ok {w n : ℕ} (hn : n < 256 ^ w)
    (hsize : pre.length + (leBytes w n ++ rest).length < 2 ^ 32) :
    popNumber w pre.length (pre ++ (leBytes w n ++ rest)) = .ok n (pre ++ rest) := by
  have hok : popInto w (leBytes w n).length pre.length (pre ++ (leBytes w n ++ rest)) = _ :=
    popInto_ok (length_leBytes w n).le hsize
  rw [length_leBytes] at hok
  rw [popNumber, bind_ok hok, ofLE_leBytes_of_lt hn]
  rfl

theorem popNumber_fault {w : ℕ} (hw : w < 2 ^ 32) (hsize : pre.length + tail.length < 2 ^ 32)
    (hwrap : 2 ^ 32 ≤ pre.length + w) : popNumber w pre.length (pre ++ tail) = .fault :=
  bind_fault (popInto_fault hw hsize hwrap)

theorem popNumber_meets {w : ℕ} (hw : w < 2 ^ 32) (hsize : pre.length + tail.length < 2 ^ 32) :
    Meets (popNumber w pre.length) (pre ++ tail)
      (fun n c ↦ ∃ rest, tail = leBytes w n ++ rest ∧ n < 256 ^ w ∧ c = pre ++ rest)
      (2 ^ 32 ≤ pre.length + w) := by
  refine (popInto_meets hw hsize fun _ ↦ le_rfl).bind fun raw c ⟨rest, htail, hraw, hc⟩ ↦ ?_
  refine Meets.pure ⟨rest, ?_, ?_, hc⟩
  · rw [htail, ← hraw, leBytes_ofLE]
  · rw [← hraw]
    exact ofLE_lt raw

/-! ### Texts -/

theorem peek_ok {raw : List UInt8} :
    peek raw.length pre.length (pre ++ (raw ++ rest)) = .ok raw (pre ++ (raw ++ rest)) := by
  have hin : pre.length + raw.length ≤ (pre ++ (raw ++ rest)).length := by
    simp only [List.length_append]
    omega
  rw [peek, if_pos hin, List.drop_left, List.take_left]

theorem peek_fault {len : ℕ} (h : tail.length < len) :
    peek len pre.length (pre ++ tail) = .fault := by
  have hout : ¬ pre.length + len ≤ (pre ++ tail).length := by
    rw [List.length_append]
    omega
  rw [peek, if_neg hout]

theorem discard_ok {raw : List UInt8} :
    discard raw.length pre.length (pre ++ (raw ++ rest)) = .ok raw.length (pre ++ rest) := by
  have hn : (if raw.length = 0 ∨ (pre ++ (raw ++ rest)).length ≤ pre.length then 0
      else min raw.length ((pre ++ (raw ++ rest)).length - pre.length)) = raw.length := by
    simp only [List.length_append]
    split
    · omega
    · exact Nat.min_eq_left (by omega)
  simp only [discard, hn, removeAt_append rfl, List.drop_left]

theorem store_ok {used room : ℕ} (h : used ≤ room) (c : List UInt8) :
    store used room c = .ok () c := by
  rw [store, decide_eq_true h]
  exact guard_true c

theorem store_fault {used room : ℕ} (h : room < used) (c : List UInt8) :
    store used room c = .fault := by
  rw [store, decide_eq_false (Nat.not_le.2 h)]
  exact guard_false c

section Text

variable {raw : List UInt8} {used room : ℕ}

/-- The check of a text that is there. -/
theorem popText_eq (hsize : pre.length + (raw ++ rest).length < 2 ^ 32) :
    popText raw.length used room pre.length (pre ++ (raw ++ rest)) =
      ((peek (2 * (raw.length / 2)) pre.length >>= fun text ↦ store used room >>= fun _ ↦
        discard raw.length pre.length >>= fun _ ↦ pure (utf16Units text)) :
          Pop (List UInt16)) (pre ++ (raw ++ rest)) := by
  rw [List.length_append] at hsize
  have hmod : (raw.length + pre.length) % 2 ^ 32 = raw.length + pre.length :=
    Nat.mod_eq_of_lt (by omega)
  have hcheck : ¬ (pre ++ (raw ++ rest)).length < (raw.length + pre.length) % 2 ^ 32 := by
    rw [hmod]
    simp only [List.length_append]
    omega
  have hget : getSize (pre ++ (raw ++ rest)) =
    .ok (pre ++ (raw ++ rest)).length (pre ++ (raw ++ rest)) := rfl
  rw [popText, bind_ok hget, if_neg hcheck]

/-- What is read of a text: all of it but an odd last byte. -/
theorem peek_text :
    peek (2 * (raw.length / 2)) pre.length (pre ++ (raw ++ rest)) =
      .ok (raw.take (2 * (raw.length / 2))) (pre ++ (raw ++ rest)) := by
  have hle : 2 * (raw.length / 2) ≤ raw.length := by omega
  have hok : peek (raw.take (2 * (raw.length / 2))).length pre.length
      (pre ++ (raw.take (2 * (raw.length / 2)) ++ (raw.drop (2 * (raw.length / 2)) ++ rest))) = _ :=
    peek_ok
  rw [List.length_take_of_le hle, ← List.append_assoc (raw.take _), List.take_append_drop] at hok
  exact hok

theorem popText_ok (hroom : used ≤ room)
    (hsize : pre.length + (raw ++ rest).length < 2 ^ 32) :
    popText raw.length used room pre.length (pre ++ (raw ++ rest)) =
      .ok (utf16Units raw) (pre ++ rest) := by
  rw [popText_eq hsize, bind_ok peek_text, bind_ok (store_ok hroom _), bind_ok discard_ok,
    utf16Units_take]
  rfl

theorem popText_noRoom (hroom : room < used)
    (hsize : pre.length + (raw ++ rest).length < 2 ^ 32) :
    popText raw.length used room pre.length (pre ++ (raw ++ rest)) = .fault := by
  rw [popText_eq hsize, bind_ok peek_text, bind_fault (store_fault hroom _)]

theorem popText_fault {len : ℕ} (hlen : len < 2 ^ 32)
    (hsize : pre.length + tail.length + 4 < 2 ^ 32) (hwrap : 2 ^ 32 ≤ pre.length + len) :
    popText len used room pre.length (pre ++ tail) = .fault := by
  have hcheck : ¬ (pre ++ tail).length < (len + pre.length) % 2 ^ 32 := by
    rw [List.length_append]
    omega
  have hget : getSize (pre ++ tail) = .ok (pre ++ tail).length (pre ++ tail) := rfl
  rw [popText, bind_ok hget, if_neg hcheck]
  exact bind_fault (peek_fault (by omega))

theorem popText_meets {len : ℕ} (hlen : len < 2 ^ 32)
    (hsize : pre.length + tail.length + 4 < 2 ^ 32) :
    Meets (popText len used room pre.length) (pre ++ tail)
      (fun us c ↦ ∃ raw rest, tail = raw ++ rest ∧ raw.length = len ∧ us = utf16Units raw ∧
        used ≤ room ∧ c = pre ++ rest)
      (2 ^ 32 ≤ pre.length + len ∨
        ∃ raw rest, tail = raw ++ rest ∧ raw.length = len ∧ room < used) := by
  by_cases hwrap : 2 ^ 32 ≤ pre.length + len
  · exact .of_fault (popText_fault hlen hsize hwrap) (.inl hwrap)
  by_cases hle : len ≤ tail.length
  · obtain ⟨raw, rest, htail, hraw⟩ : ∃ raw rest, tail = raw ++ rest ∧ raw.length = len :=
      ⟨tail.take len, tail.drop len, (List.take_append_drop len tail).symm,
        List.length_take_of_le hle⟩
    subst htail hraw
    have hsize' : pre.length + (raw ++ rest).length < 2 ^ 32 := by omega
    by_cases hroom : used ≤ room
    · exact .of_ok (popText_ok hroom hsize') ⟨raw, rest, rfl, rfl, rfl, hroom, rfl⟩
    · have hroom' : room < used := Nat.not_le.1 hroom
      exact .of_fault (popText_noRoom hroom' hsize') (.inr ⟨raw, rest, rfl, rfl, hroom'⟩)
  · have hcheck : (pre ++ tail).length < (len + pre.length) % 2 ^ 32 := by
      rw [List.length_append, Nat.mod_eq_of_lt (by omega)]
      omega
    have hget : getSize (pre ++ tail) = .ok (pre ++ tail).length (pre ++ tail) := rfl
    refine .of_throw (e := .badUnicode) (t := pre ++ tail) ?_
    rw [popText, bind_ok hget, if_pos hcheck]
    rfl

end Text

/-! ### Strings -/

section BSTR

variable {used room : ℕ}

theorem lt_null {len : ℕ} (h : len < UQUEUE_NULL_LENGTH) : len < 2 ^ 32 :=
  lt_trans h (by decide)

/-- A string whose length is not that of a null string. -/
theorem popBSTR_text {len : ℕ} (hlen : len < UQUEUE_NULL_LENGTH)
    (hsize : pre.length + (leBytes 4 len ++ rest).length < 2 ^ 32) :
    popBSTR used room pre.length (pre ++ (leBytes 4 len ++ rest)) =
      ((popText len used room pre.length >>= fun text ↦ getSize >>= fun n ↦
        pure (some text, (pre ++ (leBytes 4 len ++ rest)).length - n)) :
          Pop (Option (List UInt16) × ℕ)) (pre ++ rest) := by
  have hget : getSize (pre ++ (leBytes 4 len ++ rest)) =
    .ok (pre ++ (leBytes 4 len ++ rest)).length (pre ++ (leBytes 4 len ++ rest)) := rfl
  have hnum := popNumber_ok (w := 4) (lt_trans hlen (by decide)) hsize
  rw [popBSTR, bind_ok hget, bind_ok hnum, if_neg hlen.ne]

theorem popBSTR_null (hsize : pre.length + (leBytes 4 UQUEUE_NULL_LENGTH ++ rest).length < 2 ^ 32) :
    popBSTR used room pre.length (pre ++ (leBytes 4 UQUEUE_NULL_LENGTH ++ rest)) =
      ((store used room >>= fun _ ↦ getSize >>= fun n ↦
        pure (none, (pre ++ (leBytes 4 UQUEUE_NULL_LENGTH ++ rest)).length - n)) :
          Pop (Option (List UInt16) × ℕ)) (pre ++ rest) := by
  have hget : getSize (pre ++ (leBytes 4 UQUEUE_NULL_LENGTH ++ rest)) =
    .ok (pre ++ (leBytes 4 UQUEUE_NULL_LENGTH ++ rest)).length
      (pre ++ (leBytes 4 UQUEUE_NULL_LENGTH ++ rest)) := rfl
  have hnum := popNumber_ok (w := 4) (n := UQUEUE_NULL_LENGTH) (by decide) hsize
  rw [popBSTR, bind_ok hget, bind_ok hnum, if_pos rfl]

/-- What has been removed between `pre` and `rest`. -/
theorem length_sub_length (pre b rest : List UInt8) :
    (pre ++ (b ++ rest)).length - (pre ++ rest).length = b.length := by
  simp only [List.length_append]
  omega

theorem popBSTR_ok {s : Option (List UInt16)} {b : List UInt8} (hs : BSTRItem s b)
    (hroom : used ≤ room) (hsize : pre.length + (b ++ rest).length < 2 ^ 32) :
    popBSTR used room pre.length (pre ++ (b ++ rest)) = .ok (s, b.length) (pre ++ rest) := by
  have hget : getSize (pre ++ rest) = .ok (pre ++ rest).length (pre ++ rest) := rfl
  cases hs with
  | null =>
    rw [popBSTR_null hsize, bind_ok (store_ok hroom _), bind_ok hget, length_sub_length]
    rfl
  | @text raw hraw =>
    rw [List.append_assoc] at hsize ⊢
    have hsize' : pre.length + (raw ++ rest).length < 2 ^ 32 := by
      rw [List.length_append] at hsize
      omega
    rw [popBSTR_text hraw hsize, bind_ok (popText_ok hroom hsize'), bind_ok hget,
      ← List.append_assoc (leBytes 4 _), length_sub_length]
    rfl

theorem popBSTR_noRoom {s : Option (List UInt16)} {b : List UInt8} (hs : BSTRItem s b)
    (hroom : room < used) (hsize : pre.length + (b ++ rest).length < 2 ^ 32) :
    popBSTR used room pre.length (pre ++ (b ++ rest)) = .fault := by
  cases hs with
  | null => rw [popBSTR_null hsize, bind_fault (store_fault hroom _)]
  | @text raw hraw =>
    rw [List.append_assoc] at hsize ⊢
    have hsize' : pre.length + (raw ++ rest).length < 2 ^ 32 := by
      rw [List.length_append] at hsize
      omega
    rw [popBSTR_text hraw hsize, bind_fault (popText_noRoom hroom hsize')]

theorem popBSTR_fault (h : BSTRHazard pre.length tail)
    (hsize : pre.length + tail.length < 2 ^ 32) :
    popBSTR used room pre.length (pre ++ tail) = .fault := by
  cases h with
  | length hwrap =>
    have hget : getSize (pre ++ tail) = .ok (pre ++ tail).length (pre ++ tail) := rfl
    rw [popBSTR, bind_ok hget, bind_fault (popNumber_fault (by decide) hsize hwrap)]
  | @text len rest hlen hwrap =>
    have hsize' : pre.length + rest.length + 4 < 2 ^ 32 := by
      rw [List.length_append, length_leBytes] at hsize
      omega
    rw [popBSTR_text hlen hsize, bind_fault (popText_fault (lt_null hlen) hsize' hwrap)]

theorem popBSTR_meets (hsize : pre.length + tail.length < 2 ^ 32) :
    Meets (popBSTR used room pre.length) (pre ++ tail)
      (fun x c ↦ ∃ b rest, BSTRItem x.1 b ∧ tail = b ++ rest ∧ x.2 = b.length ∧ c = pre ++ rest ∧
        used ≤ room)
      (BSTRHazard pre.length tail ∨
        ∃ s b rest, BSTRItem s b ∧ tail = b ++ rest ∧ room < used) := by
  have hget : getSize (pre ++ tail) = .ok (pre ++ tail).length (pre ++ tail) := rfl
  have hnumber := (popNumber_meets (w := 4) (by decide) hsize).mono (fun _ _ h ↦ h)
    fun hwrap : 2 ^ 32 ≤ pre.length + 4 ↦
      (Or.inl (.length hwrap) : BSTRHazard pre.length tail ∨
        ∃ s b rest, BSTRItem s b ∧ tail = b ++ rest ∧ room < used)
  refine (Meets.of_ok hget ⟨rfl, rfl⟩ : Meets getSize (pre ++ tail)
    (fun n c ↦ n = (pre ++ tail).length ∧ c = pre ++ tail) _).bind ?_
  rintro _ _ ⟨rfl, rfl⟩
  refine hnumber.bind ?_
  rintro len _ ⟨rest, rfl, hlen, rfl⟩
  have hrest : pre.length + rest.length + 4 < 2 ^ 32 := by
    rw [List.length_append, length_leBytes] at hsize
    omega
  have hget' : ∀ rest : List UInt8,
    getSize (pre ++ rest) = .ok (pre ++ rest).length (pre ++ rest) := fun _ ↦ rfl
  by_cases hnull : len = UQUEUE_NULL_LENGTH
  · subst hnull
    rw [if_pos rfl]
    by_cases hroom : used ≤ room
    · refine .of_ok (t := pre ++ rest)
        (a := (none, (pre ++ (leBytes 4 UQUEUE_NULL_LENGTH ++ rest)).length - (pre ++ rest).length))
        ?_ ⟨_, rest, .null, rfl, length_sub_length _ _ _, rfl, hroom⟩
      rw [bind_ok (store_ok hroom _), bind_ok (hget' rest)]
      rfl
    · have hroom' : room < used := Nat.not_le.1 hroom
      exact .of_fault (bind_fault (store_fault hroom' _)) (.inr ⟨_, _, rest, .null, rfl, hroom'⟩)
  · have hlen' : len < UQUEUE_NULL_LENGTH := Nat.lt_of_le_of_ne (Nat.le_of_lt_succ hlen) hnull
    rw [if_neg hnull]
    refine ((popText_meets (lt_null hlen') hrest).mono (fun _ _ h ↦ h) fun h ↦ ?_).bind ?_
    · rcases h with hwrap | ⟨raw, rest', rfl, rfl, hroom⟩
      · exact .inl (.text hlen' hwrap)
      · exact .inr ⟨_, _, rest', .text hlen', (List.append_assoc _ _ _).symm, hroom⟩
    · rintro us _ ⟨raw, rest', rfl, rfl, rfl, hroom, rfl⟩
      refine .of_ok (t := pre ++ rest')
        (a := (some (utf16Units raw), (leBytes 4 raw.length ++ raw).length)) ?_
        ⟨_, rest', .text hlen', (List.append_assoc _ _ _).symm, rfl, rfl, hroom⟩
      rw [bind_ok (hget' rest'), ← List.append_assoc (leBytes 4 _), length_sub_length]
      rfl

end BSTR

/-! ### Loops over elements -/

section Loop

variable {α : Type} {R : α → List UInt8 → Prop} {H : ℕ → List UInt8 → Prop} {P : ℕ → Prop}
  {pop : ℕ → Pop (α × ℕ)} {N : ℕ}

/-- One more element in front. -/
theorem popLoop_step {i k n : ℕ} {a : α} {c c' : List UInt8} (h : pop i c = .ok (a, n) c') :
    popLoop pop i (k + 1) c =
      ((popLoop pop (i + 1) k >>= fun x ↦ pure (a :: x.1, (n + x.2) % 2 ^ 32)) :
        Pop (List α × ℕ)) c' := by
  rw [popLoop, bind_ok h]

theorem popLoop_ok {n : ℕ} {as : List α} {bs : List UInt8} (hN : N < 2 ^ 32)
    (hpop : ∀ i < n, ∀ a b rest, R a b → (b ++ rest).length ≤ N →
      pop i (pre ++ (b ++ rest)) = .ok (a, b.length) (pre ++ rest))
    (h : Chunked R as bs) : ∀ i, i + as.length ≤ n → (bs ++ rest).length ≤ N →
      popLoop pop i as.length (pre ++ (bs ++ rest)) = .ok (as, bs.length) (pre ++ rest) := by
  induction h with
  | nil => exact fun _ _ _ ↦ rfl
  | @cons a as b bs hhead _ ih =>
    intro i hi hlen
    rw [List.append_assoc] at hlen ⊢
    rw [List.length_cons] at hi ⊢
    have hrest : (bs ++ rest).length ≤ N := by
      rw [List.length_append] at hlen
      omega
    have hsum : (b.length + bs.length) % 2 ^ 32 = (b ++ bs).length := by
      simp only [List.length_append] at hlen ⊢
      omega
    rw [popLoop_step (hpop i (by omega) a b _ hhead hlen), bind_ok (ih (i + 1) (by omega) hrest),
      ← hsum]
    rfl

/-- The loop gets stuck where an element does: at the elements read before it it goes on or is at
fault already. -/
theorem popLoop_fault {as : List α} {bs : List UInt8}
    (hpop : ∀ i a b rest, R a b → (b ++ rest).length ≤ N →
      pop i (pre ++ (b ++ rest)) = .ok (a, b.length) (pre ++ rest) ∨
        pop i (pre ++ (b ++ rest)) = .fault)
    (hfault : ∀ i rest, rest.length ≤ N → H i rest → pop i (pre ++ rest) = .fault)
    (h : Chunked R as bs) : ∀ i k, as.length < k → (bs ++ rest).length ≤ N →
      H (i + as.length) rest → popLoop pop i k (pre ++ (bs ++ rest)) = .fault := by
  induction h with
  | nil =>
    intro i k hk hlen hH
    obtain ⟨k, rfl⟩ := Nat.exists_eq_add_of_lt hk
    exact bind_fault (hfault i rest hlen hH)
  | @cons a as b bs hhead _ ih =>
    intro i k hk hlen hH
    obtain ⟨k, rfl⟩ := Nat.exists_eq_add_of_lt hk
    rw [List.append_assoc] at hlen ⊢
    have hrest : (bs ++ rest).length ≤ N := by
      rw [List.length_append] at hlen
      omega
    have hnext : i + (a :: as).length = i + 1 + as.length := by
      rw [List.length_cons]
      omega
    rw [hnext] at hH
    rcases hpop i a b _ hhead hlen with hok | hf
    · rw [popLoop_step hok]
      exact bind_fault (ih (i + 1) _ (by rw [List.length_cons]; omega) hrest hH)
    · exact bind_fault hf

theorem popLoop_meets (hN : N < 2 ^ 32)
    (hpop : ∀ i tail, tail.length ≤ N → Meets (pop i) (pre ++ tail)
      (fun x c ↦ ∃ b rest, R x.1 b ∧ tail = b ++ rest ∧ x.2 = b.length ∧ c = pre ++ rest ∧ P i)
      (H i tail)) :
    ∀ k i tail, tail.length ≤ N → Meets (popLoop pop i k) (pre ++ tail)
      (fun x c ↦ ∃ bs rest, Chunked R x.1 bs ∧ x.1.length = k ∧ tail = bs ++ rest ∧
        x.2 = bs.length ∧ c = pre ++ rest ∧ ∀ j < k, P (i + j))
      (∃ as bs rest, Chunked R as bs ∧ as.length < k ∧ tail = bs ++ rest ∧
        H (i + as.length) rest) := by
  intro k
  induction k with
  | zero =>
    intro i tail _
    exact Meets.pure ⟨[], tail, .nil, rfl, rfl, rfl, rfl, fun j hj ↦ absurd hj (Nat.not_lt_zero j)⟩
  | succ k ih =>
    intro i tail hlen
    rw [popLoop]
    refine ((hpop i tail hlen).mono (fun _ _ h ↦ h) fun hH ↦
      ⟨[], [], tail, .nil, k.succ_pos, rfl, hH⟩).bind ?_
    rintro ⟨a, n⟩ _ ⟨b, rest, hhead, rfl, hn, rfl, hPi⟩
    have hrest : rest.length ≤ N := by
      rw [List.length_append] at hlen
      omega
    refine ((ih (i + 1) rest hrest).mono (fun _ _ h ↦ h) ?_).bind ?_
    · rintro ⟨as, bs, rest', has, hlt, rfl, hH⟩
      refine ⟨a :: as, b ++ bs, rest', .cons hhead has, ?_, (List.append_assoc _ _ _).symm, ?_⟩
      · rw [List.length_cons]
        omega
      · rwa [List.length_cons, Nat.add_comm as.length, ← Nat.add_assoc]
    · rintro ⟨as, m⟩ _ ⟨bs, rest', has, hk, rfl, hm, rfl, hP⟩
      refine Meets.pure ⟨b ++ bs, rest', .cons hhead has, ?_, (List.append_assoc _ _ _).symm, ?_,
        rfl, fun j hj ↦ ?_⟩
      · exact congrArg (· + 1) hk
      · change n = b.length at hn
        change m = bs.length at hm
        show (n + m) % 2 ^ 32 = (b ++ bs).length
        simp only [List.length_append] at hlen ⊢
        omega
      · obtain rfl | ⟨j, rfl⟩ : j = 0 ∨ ∃ j', j = j' + 1 := by
          rcases j with - | j
          · exact .inl rfl
          · exact .inr ⟨j, rfl⟩
        · exact hPi
        · have := hP j (by omega)
          rwa [Nat.add_right_comm] at this

end Loop

/-! ### Safe arrays -/

theorem safeArrayCreate_ok {cb n : ℕ} (h : sizeofSAFEARRAY ≤ safeArrayBytes cb n)
    (c : List UInt8) :
    safeArrayCreate cb n c = .ok (safeArrayBytes cb n - sizeofSAFEARRAY) c := by
  rw [safeArrayCreate, decide_eq_true h]
  rfl

theorem safeArrayCreate_fault {cb n : ℕ} (h : NoRoom cb n 0) (c : List UInt8) :
    safeArrayCreate cb n c = .fault := by
  have hsmall : ¬ sizeofSAFEARRAY ≤ safeArrayBytes cb n := Nat.not_le.2 h
  rw [safeArrayCreate, decide_eq_false hsmall]
  rfl

theorem safeArrayCreate_meets {cb n : ℕ} (c : List UInt8) :
    Meets (safeArrayCreate cb n) c
      (fun room d ↦ sizeofSAFEARRAY ≤ safeArrayBytes cb n ∧
        room = safeArrayBytes cb n - sizeofSAFEARRAY ∧ d = c)
      (NoRoom cb n 0) := by
  by_cases h : sizeofSAFEARRAY ≤ safeArrayBytes cb n
  · exact .of_ok (safeArrayCreate_ok h c) ⟨h, rfl, rfl⟩
  · have h' : NoRoom cb n 0 := Nat.not_le.1 h
    exact .of_fault (safeArrayCreate_fault h' c) h'

/-- The memory that is reserved takes the bytes whose number has been computed in 32 bits. -/
theorem le_safeArrayBytes {cb n : ℕ} (h : sizeofSAFEARRAY ≤ safeArrayBytes cb n)
    (hlen : n * cb % 2 ^ 32 + 1 < 2 ^ 32) :
    n * cb % 2 ^ 32 ≤ safeArrayBytes cb n - sizeofSAFEARRAY := by
  unfold safeArrayBytes at h ⊢
  rw [Nat.mul_comm cb n] at h ⊢
  generalize n * cb % 2 ^ 32 = x at *
  omega

end SocketPro.Buffer
