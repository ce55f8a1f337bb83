import Mathlib.Data.UInt
import Mathlib.Tactic.Ring

/-!
# Byte strings

Little-endian numbers, 16-bit units, 32-bit words, insertion and removal at a position, and
concatenations of chunks. Nothing here knows what the bytes mean.

* `leBytes w n` and `ofLE` are inverse to each other up to the width, and so are `wordBytes` and
  `words` for 32-bit numbers one behind the other;
* `insertAt` and `removeAt` are stated on a byte string split at the position, which is how the
  proofs about buffers use them;
* `Chunked R as bs` says that `bs` is a concatenation of one chunk for each element of `as`, every
  chunk standing in the relation `R` to its element.
-/

namespace Bytes

/-! ### 32-bit numbers -/

/-- The difference of two 32-bit numbers that are not negative. -/
def sub32 (x y : ℕ) : ℕ := (2 ^ 32 + x - y) % 2 ^ 32

theorem sub32_of_le {x y : ℕ} (h : y ≤ x) (hx : x < 2 ^ 32) : sub32 x y = x - y := by
  have hadd : 2 ^ 32 + x - y = x - y + 2 ^ 32 := by omega
  rw [sub32, hadd, Nat.add_mod_right, Nat.mod_eq_of_lt (by omega)]

/-! ### Little-endian numbers -/

/-- The `w` low bytes of `n`, the lowest first. -/
def leBytes : ℕ → ℕ → List UInt8
  | 0, _ => []
  | w + 1, n => UInt8.ofNat (n % 256) :: leBytes w (n / 256)

/-- The number that a little-endian byte string denotes. -/
def ofLE : List UInt8 → ℕ
  | [] => 0
  | b :: bs => b.toNat + 256 * ofLE bs

@[simp] theorem length_leBytes (w n : ℕ) : (leBytes w n).length = w := by
  induction w generalizing n with
  | zero => rfl
  | succ w ih => rw [leBytes, List.length_cons, ih]

theorem ofLE_leBytes (w n : ℕ) : ofLE (leBytes w n) = n % 256 ^ w := by
  induction w generalizing n with
  | zero =>
    rw [pow_zero, Nat.mod_one]
    rfl
  | succ w ih =>
    have hb : (UInt8.ofNat (n % 256)).toNat = n % 256 := by simp
    rw [leBytes, ofLE, ih, hb, pow_succ', Nat.mod_mul]

theorem ofLE_lt (bs : List UInt8) : ofLE bs < 256 ^ bs.length := by
  induction bs with
  | nil => exact Nat.one_pos
  | cons b bs ih =>
    have hb : b.toNat < 256 := b.toNat_lt
    rw [ofLE, List.length_cons, pow_succ']
    omega

/-- A byte string is the little-endian form of the number it denotes. -/
theorem leBytes_ofLE (bs : List UInt8) : leBytes bs.length (ofLE bs) = bs := by
  induction bs with
  | nil => rfl
  | cons b bs ih =>
    have hb : b.toNat < 256 := b.toNat_lt
    have hlow : (ofLE (b :: bs)) % 256 = b.toNat := by
      rw [ofLE]
      omega
    have hhigh : (ofLE (b :: bs)) / 256 = ofLE bs := by
      rw [ofLE]
      omega
    rw [List.length_cons, leBytes, hlow, hhigh, ih]
    simp

theorem ofLE_leBytes_of_lt {w n : ℕ} (h : n < 256 ^ w) : ofLE (leBytes w n) = n := by
  rw [ofLE_leBytes, Nat.mod_eq_of_lt h]

/-- A number is known by the bytes it stands for, whatever follows them. -/
theorem leBytes_append_inj {w m n : ℕ} {s t : List UInt8} (hm : m < 256 ^ w) (hn : n < 256 ^ w)
    (h : leBytes w m ++ s = leBytes w n ++ t) : m = n ∧ s = t := by
  obtain ⟨hbytes, hrest⟩ := List.append_inj h (by rw [length_leBytes, length_leBytes])
  refine ⟨?_, hrest⟩
  rw [← ofLE_leBytes_of_lt hm, hbytes, ofLE_leBytes_of_lt hn]

/-! ### 16-bit units -/

/-- The bytes of a text of 16-bit units. -/
def utf16Bytes : List UInt16 → List UInt8
  | [] => []
  | u :: us => leBytes 2 u.toNat ++ utf16Bytes us

/-- The 16-bit units a byte string consists of; an odd last byte is left out. -/
def utf16Units : List UInt8 → List UInt16
  | a :: b :: bs => UInt16.ofNat (ofLE [a, b]) :: utf16Units bs
  | _ => []

theorem length_utf16Bytes (us : List UInt16) : (utf16Bytes us).length = 2 * us.length := by
  induction us with
  | nil => rfl
  | cons u us ih =>
    rw [utf16Bytes, List.length_append, length_leBytes, ih, List.length_cons]
    omega

theorem utf16Units_utf16Bytes (us : List UInt16) : utf16Units (utf16Bytes us) = us := by
  induction us with
  | nil => rfl
  | cons u us ih =>
    have hu : u.toNat < 256 ^ 2 := u.toNat_lt
    have hunit : UInt16.ofNat (ofLE (leBytes 2 u.toNat)) = u := by
      rw [ofLE_leBytes_of_lt hu, UInt16.ofNat_toNat]
    rw [utf16Bytes]
    show UInt16.ofNat (ofLE (leBytes 2 u.toNat)) :: utf16Units (utf16Bytes us) = u :: us
    rw [hunit, ih]

/-- An odd last byte makes no unit. -/
theorem utf16Units_take : ∀ bs : List UInt8,
    utf16Units (bs.take (2 * (bs.length / 2))) = utf16Units bs
  | [] => rfl
  | [_] => by simp [utf16Units]
  | a :: b :: bs => by
    have hlen : 2 * ((a :: b :: bs).length / 2) = 2 * (bs.length / 2) + 2 := by
      rw [List.length_cons, List.length_cons]
      omega
    rw [hlen, List.take_succ_cons, List.take_succ_cons, utf16Units, utf16Units, utf16Units_take bs]

/-! ### Words -/

/-- The bytes of 32-bit numbers, one behind the other. -/
def wordBytes (ws : List UInt32) : List UInt8 := ws.flatMap fun w ↦ leBytes 4 w.toNat

/-- The first `n` 32-bit numbers of a byte string. -/
def words : ℕ → List UInt8 → List UInt32
  | 0, _ => []
  | n + 1, bs => UInt32.ofNat (ofLE (bs.take 4)) :: words n (bs.drop 4)

theorem wordBytes_cons (w : UInt32) (ws : List UInt32) :
    wordBytes (w :: ws) = leBytes 4 w.toNat ++ wordBytes ws := List.flatMap_cons

theorem length_wordBytes (ws : List UInt32) : (wordBytes ws).length = 4 * ws.length := by
  induction ws with
  | nil => rfl
  | cons w ws ih =>
    rw [wordBytes_cons, List.length_append, length_leBytes, ih, List.length_cons]
    omega

theorem length_words (n : ℕ) (bs : List UInt8) : (words n bs).length = n := by
  induction n generalizing bs with
  | zero => rfl
  | succ n ih => rw [words, List.length_cons, ih]

/-- Numbers in front of other bytes are read back. -/
theorem words_wordBytes (ws : List UInt32) (rest : List UInt8) :
    words ws.length (wordBytes ws ++ rest) = ws := by
  induction ws with
  | nil => rfl
  | cons w ws ih =>
    have hlen : (leBytes 4 w.toNat).length = 4 := length_leBytes 4 _
    have hw : w.toNat < 256 ^ 4 := w.toNat_lt
    rw [wordBytes_cons, List.append_assoc, List.length_cons, words, List.take_left' hlen,
      List.drop_left' hlen, ih, ofLE_leBytes_of_lt hw, UInt32.ofNat_toNat]

/-- The numbers that are read have the bytes that they are read from. -/
theorem wordBytes_words {n : ℕ} {bs : List UInt8} (h : 4 * n ≤ bs.length) :
    wordBytes (words n bs) = bs.take (4 * n) := by
  induction n generalizing bs with
  | zero => rfl
  | succ n ih =>
    have hlen : (bs.take 4).length = 4 := List.length_take_of_le (by omega)
    have hlt : ofLE (bs.take 4) < 2 ^ 32 := by
      have hofLE := ofLE_lt (bs.take 4)
      rwa [hlen] at hofLE
    have hbytes : leBytes 4 (ofLE (bs.take 4)) = bs.take 4 := by
      have hle := leBytes_ofLE (bs.take 4)
      rwa [hlen] at hle
    have hdrop : 4 * n ≤ (bs.drop 4).length := by
      rw [List.length_drop]
      omega
    rw [words, wordBytes_cons, ih hdrop, UInt32.toNat_ofNat_of_lt' hlt, hbytes,
      Nat.mul_succ, Nat.add_comm, List.take_add]

/-! ### Insertion and removal -/

variable {α β : Type*}

/-- Insert `xs` before position `p`. -/
def insertAt (p : ℕ) (xs c : List α) : List α := c.take p ++ xs ++ c.drop p

/-- Remove `n` elements from position `p` on. -/
def removeAt (p n : ℕ) (c : List α) : List α := c.take p ++ c.drop (p + n)

theorem insertAt_append {p : ℕ} {pre : List α} (hp : pre.length = p) (xs tail : List α) :
    insertAt p xs (pre ++ tail) = pre ++ (xs ++ tail) := by
  subst hp
  simp [insertAt]

theorem removeAt_append {p : ℕ} {pre : List α} (hp : pre.length = p) (n : ℕ) (tail : List α) :
    removeAt p n (pre ++ tail) = pre ++ tail.drop n := by
  subst hp
  simp [removeAt]

theorem insertAt_length (xs c : List α) : insertAt c.length xs c = c ++ xs := by
  simp [insertAt]

theorem insertAt_nil (p : ℕ) (c : List α) : insertAt p [] c = c := by
  simp [insertAt]

theorem length_insertAt (p : ℕ) (xs c : List α) :
    (insertAt p xs c).length = c.length + xs.length := by
  simp only [insertAt, List.length_append, List.length_take, List.length_drop]
  omega

/-- Inserting a second piece right after a first one inserts their concatenation. -/
theorem insertAt_insertAt {p : ℕ} {c : List α} (hp : p ≤ c.length) (xs ys : List α) :
    insertAt (p + xs.length) ys (insertAt p xs c) = insertAt p (xs ++ ys) c := by
  have htake : (c.take p).length = p := by rw [List.length_take, Nat.min_eq_left hp]
  have hpre : (c.take p ++ xs).length = p + xs.length := by rw [List.length_append, htake]
  calc
    insertAt (p + xs.length) ys (insertAt p xs c)
        = (c.take p ++ xs) ++ (ys ++ c.drop p) := insertAt_append hpre ys (c.drop p)
    _ = insertAt p (xs ++ ys) c := by simp [insertAt]

/-! ### Concatenations of chunks -/

/-- `bs` is a concatenation of chunks, one for each element of the list, related to it by `R`. -/
inductive Chunked (R : α → List β → Prop) : List α → List β → Prop
  | nil : Chunked R [] []
  | cons {a : α} {as : List α} {b bs : List β} :
      R a b → Chunked R as bs → Chunked R (a :: as) (b ++ bs)

end Bytes
