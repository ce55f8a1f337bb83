import SocketPro.Json.Number

/-!
# Integers as texts

`ToString` of the four integer types and the four readers `atoi`, `atoui`, `atoll` and `atoull`, on
the buffer they run on. A buffer is the list of its places and a pointer into it an index, so
touching a place outside of it is a failure of the run.

**From the back.** The digits are written downwards from a fixed place. The index is an
`unsigned char`: a number of full length leaves it at 255, one below the first place, and the
arithmetic on it wraps back (`digitLoop_eq`).

**The minimum.** `x *= -1` leaves the least number of a signed type as it is. The run stays inside
the buffer and ends its text with a zero, but the digits come out below the character `0`, and no
reader accepts them. Every other number comes back (`toString_comesBack_iff`).
-/

namespace SocketPro.Text

open SocketPro.Json (code isDigit decimal toStringLoop)

/-! ### Writing -/

/-- What `ToString` leaves: the buffer, where the pointer it returns points, and `chars`. -/
structure Printed where
  buff : List ℕ
  start : ℕ
  chars : ℕ

/-- `buff[i] = c`. -/
def put (buff : List ℕ) (i c : ℕ) : Option (List ℕ) :=
  if i < buff.length then some (buff.set i c) else none

/-- A number as an `unsigned char`. -/
def uchar (n : ℤ) : ℕ := (n % 256).toNat

/-- `while (x) { buff[start] = (x % 10 + '0'); x /= 10; --start; }`. -/
def digitLoop (x : ℤ) (buff : List ℕ) (start : ℕ) : Option (List ℕ × ℕ) :=
  if x = 0 then some (buff, start)
  else do
    let buff ← put buff start (x.tmod 10 + code '0').toNat
    digitLoop (x.tdiv 10) buff (uchar (start - 1))
termination_by x.natAbs
decreasing_by
  rw [Int.natAbs_tdiv]
  exact Nat.div_lt_self (by omega) (by decide)

/-- The branch of `ToString` for zero. -/
def printZero (buff : List ℕ) : Option Printed := do
  let buff ← put buff 0 (code '0')
  let buff ← put buff 1 0
  return ⟨buff, 0, 1⟩

/-- `ToString` of a signed type of `width` bits with the terminator at `last`. -/
def toStringSigned (width last : ℕ) (x : ℤ) (buff : List ℕ) : Option Printed :=
  if x = 0 then printZero buff
  else do
    let buff ← put buff last 0
    let neg : Bool := x < 0
    let x := if neg then (x * -1).bmod (2 ^ width) else x
    let (buff, start) ← digitLoop x buff (last - 1)
    let chars := uchar (last - 1 - start)
    if neg then
      let buff ← put buff start (code '-')
      return ⟨buff, start, uchar (chars + 1)⟩
    else return ⟨buff, uchar (start + 1), chars⟩

/-- `ToString` of an unsigned type with the terminator at `last`. -/
def toStringUnsigned (last : ℕ) (x : ℕ) (buff : List ℕ) : Option Printed :=
  if x = 0 then printZero buff
  else do
    let buff ← put buff last 0
    let (buff, start) ← digitLoop x buff (last - 1)
    return ⟨buff, uchar (start + 1), uchar (last - 1 - start)⟩

/-- `ToString(int, …)`, which asserts `chars > 11`. -/
def toStringInt : ℤ → List ℕ → Option Printed := toStringSigned 32 11

/-- `ToString(unsigned int, …)`, which asserts `chars > 10`. -/
def toStringUInt : ℕ → List ℕ → Option Printed := toStringUnsigned 10

/-- `ToString(INT64, …)`, which asserts `chars > 20`. -/
def toStringInt64 : ℤ → List ℕ → Option Printed := toStringSigned 64 20

/-- `ToString(UINT64, …)`, which asserts `chars > 20`. -/
def toStringUInt64 : ℕ → List ℕ → Option Printed := toStringUnsigned 20

/-! ### Reading -/

/-- `while (*p >= '0' && *p <= '9')`: the value and where the pointer stops. -/
def digitsAt {α : Type} (accumulate : α → ℕ → α) (x : α) (buff : List ℕ) (p : ℕ) :
    Option (α × ℕ) :=
  if h : p < buff.length then
    if isDigit buff[p] then digitsAt accumulate (accumulate x (buff[p] - code '0')) buff (p + 1)
    else some (x, p)
  else none
termination_by buff.length - p

/-- The reader of a signed type of `width` bits. -/
def readSigned (width : ℕ) (buff : List ℕ) (p : ℕ) : Option (ℤ × ℕ) := do
  let c ← buff[p]?
  let neg : Bool := c = code '-'
  let (x, p) ← digitsAt (fun (x : ℤ) d ↦ (x * 10 + d).bmod (2 ^ width)) 0 buff
    (if neg then p + 1 else p)
  return (if neg then (-x).bmod (2 ^ width) else x, p)

/-- The reader of an unsigned type of `width` bits. -/
def readUnsigned (width : ℕ) (buff : List ℕ) (p : ℕ) : Option (ℕ × ℕ) :=
  digitsAt (fun x d ↦ ((x <<< 3) + (x <<< 1) + d) % 2 ^ width) 0 buff p

def atoi : List ℕ → ℕ → Option (ℤ × ℕ) := readSigned 32

def atoui : List ℕ → ℕ → Option (ℕ × ℕ) := readUnsigned 32

def atoll : List ℕ → ℕ → Option (ℤ × ℕ) := readSigned 64

def atoull : List ℕ → ℕ → Option (ℕ × ℕ) := readUnsigned 64

/-! ### What is asked of them -/

/-- The decimal numeral of a natural number, without leading zeros. -/
def numeral (n : ℕ) : List ℕ := if n = 0 then [code '0'] else decimal n

/-- **The canonical decimal form** of a number. -/
def canonical (x : ℤ) : List ℕ :=
  (if x < 0 then [code '-'] else []) ++ numeral x.natAbs

/-- The pointer returned stands at `text`, which has `chars` characters, none of them zero, and a
zero behind it. -/
def Printed.Shows (p : Printed) (text : List ℕ) : Prop :=
  0 ∉ text ∧ p.chars = text.length ∧
    ∃ front tail, p.buff = front ++ text ++ 0 :: tail ∧ p.start = front.length

/-- **A number comes back** from every buffer of more than `last` places: it is printed inside the
buffer in its canonical form, and the reader takes it from there up to the terminator. -/
def ComesBack {α : Type} (last : ℕ) (print : α → List ℕ → Option Printed)
    (read : List ℕ → ℕ → Option (α × ℕ)) (value : α → ℤ) (x : α) : Prop :=
  ∀ buff : List ℕ, last < buff.length →
    ∃ p, print x buff = some p ∧ p.buff.length = buff.length ∧ p.Shows (canonical (value x)) ∧
      read p.buff p.start = some (x, p.start + p.chars)

/-! ### What the loop writes -/

/-- The characters of a number that the loop writes. -/
def digitChars (x : ℤ) : List ℕ :=
  if x = 0 then [] else digitChars (x.tdiv 10) ++ [(x.tmod 10 + code '0').toNat]
termination_by x.natAbs
decreasing_by
  rw [Int.natAbs_tdiv]
  exact Nat.div_lt_self (by omega) (by decide)

theorem digitChars_zero : digitChars 0 = [] := by
  rw [digitChars, if_pos rfl]

theorem digitChars_of_ne_zero {x : ℤ} (hx : x ≠ 0) :
    digitChars x = digitChars (x.tdiv 10) ++ [(x.tmod 10 + code '0').toNat] := by
  rw [digitChars, if_neg hx]

theorem natAbs_tdiv_ten (x : ℤ) : (x.tdiv 10).natAbs = x.natAbs / 10 :=
  Int.natAbs_tdiv x 10

/-- They are those of the loop on lists. -/
theorem toStringLoop_eq (k : ℕ) (x : ℤ) (buff : List ℕ) (hx : x.natAbs < 10 ^ k) :
    toStringLoop k x buff = digitChars x ++ buff := by
  induction k generalizing x buff with
  | zero =>
    obtain rfl : x = 0 := by simpa using hx
    rw [toStringLoop, digitChars_zero, List.nil_append]
  | succ k ih =>
    rw [toStringLoop]
    split
    · rename_i hzero
      rw [hzero, digitChars_zero, List.nil_append]
    · rename_i hzero
      have hdiv : (x.tdiv 10).natAbs < 10 ^ k := by
        rw [natAbs_tdiv_ten]
        rw [pow_succ] at hx
        omega
      rw [ih _ _ hdiv, digitChars_of_ne_zero hzero, List.append_assoc, List.singleton_append]

theorem digitChars_natCast (n : ℕ) : digitChars n = decimal n := by
  have hlt : n < 10 ^ n := Nat.lt_pow_self (by decide)
  have hloop := toStringLoop_eq n n [] (by simpa using hlt)
  rw [Json.toStringLoop_natCast n n [] hlt] at hloop
  simpa using hloop.symm

theorem digitChars_length_le {k : ℕ} {x : ℤ} (hx : x.natAbs < 10 ^ k) :
    (digitChars x).length ≤ k := by
  induction k generalizing x with
  | zero =>
    obtain rfl : x = 0 := by simpa using hx
    rw [digitChars_zero, List.length_nil]
  | succ k ih =>
    by_cases hzero : x = 0
    · rw [hzero, digitChars_zero]
      exact Nat.zero_le _
    · have hdiv : (x.tdiv 10).natAbs < 10 ^ k := by
        rw [natAbs_tdiv_ten]
        rw [pow_succ] at hx
        omega
      rw [digitChars_of_ne_zero hzero, List.length_append]
      exact Nat.succ_le_succ (ih hdiv)

theorem put_append (front : List ℕ) (m c : ℕ) (tail : List ℕ) :
    put (front ++ m :: tail) front.length c = some (front ++ c :: tail) := by
  rw [put, if_pos (by simp)]
  simp

/-- **The loop fills the places before `tail`.** `mid` is what they held before, and the index ends
one below the first of them, wrapped around. -/
theorem digitLoop_eq (x : ℤ) (front mid tail : List ℕ)
    (hmid : mid.length = (digitChars x).length) (hsmall : front.length + mid.length ≤ 256) :
    digitLoop x (front ++ mid ++ tail) (uchar ((front.length + mid.length : ℕ) - 1)) =
      some (front ++ digitChars x ++ tail, uchar (front.length - 1)) := by
  induction mid using List.reverseRecOn generalizing x tail with
  | nil =>
    have hzero : x = 0 := by
      by_contra hx
      rw [digitChars_of_ne_zero hx] at hmid
      simp at hmid
    rw [digitLoop, if_pos hzero, hzero, digitChars_zero]
    simp
  | append_singleton mid m ih =>
    have hx : x ≠ 0 := by
      rintro rfl
      rw [digitChars_zero] at hmid
      simp at hmid
    rw [digitChars_of_ne_zero hx, List.length_append, List.length_append] at hmid
    have hlength : mid.length = (digitChars (x.tdiv 10)).length := Nat.succ.inj hmid
    rw [List.length_append, List.length_singleton] at hsmall ⊢
    have hindex : uchar ((front.length + (mid.length + 1) : ℕ) - 1) = (front ++ mid).length := by
      rw [List.length_append, uchar]
      omega
    have hbuff : front ++ (mid ++ [m]) ++ tail = (front ++ mid) ++ m :: tail := by simp
    have hbelow : uchar (((front ++ mid).length : ℕ) - 1) =
        uchar ((front.length + mid.length : ℕ) - 1) := by rw [List.length_append]
    rw [digitLoop, if_neg hx, hindex, hbuff, put_append]
    simp only [Option.bind_eq_bind, Option.bind_some]
    rw [hbelow, ih _ _ hlength (by omega), digitChars_of_ne_zero hx]
    simp

/-! ### What is printed -/

/-- The places below the terminator, split where the digits begin. -/
theorem exists_places {buff : List ℕ} {last k : ℕ} (hk : k ≤ last) (hlast : last < buff.length) :
    ∃ front mid tail, mid.length = k ∧ front.length + mid.length = last ∧
      put buff last 0 = some (front ++ mid ++ 0 :: tail) ∧
      (front ++ mid ++ 0 :: tail).length = buff.length := by
  refine ⟨buff.take (last - k), (buff.take last).drop (last - k), buff.drop (last + 1), ?_, ?_, ?_,
    ?_⟩
  · simp
    omega
  · simp
    omega
  · have htake : buff.take (last - k) ++ (buff.take last).drop (last - k) = buff.take last := by
      have hpre : buff.take (last - k) = (buff.take last).take (last - k) := by
        rw [List.take_take, Nat.min_eq_left (by omega)]
      rw [hpre, List.take_append_drop]
    rw [put, if_pos hlast, htake, List.set_eq_take_append_cons_drop, if_pos hlast]
  · simp
    omega

theorem zero_notMem_of_ge {text : List ℕ} (htext : ∀ c ∈ text, 39 ≤ c) : 0 ∉ text := by
  intro hzero
  have := htext 0 hzero
  omega

/-- Every character the loop writes is at least the one of the digit `-9`. -/
theorem digitChars_ge (x : ℤ) : ∀ c ∈ digitChars x, 39 ≤ c := by
  fun_induction digitChars x with
  | case1 => simp
  | case2 x hx ih =>
    intro c hc
    rcases List.mem_append.1 hc with hc | hc
    · exact ih c hc
    · obtain rfl := List.mem_singleton.1 hc
      have hlow : -10 < x.tmod 10 := by
        have := Int.tmod_lt_of_pos (-x) (show (0 : ℤ) < 10 by decide)
        rw [Int.neg_tmod] at this
        omega
      have hcode : code '0' = 48 := rfl
      omega

theorem printZero_shows {buff : List ℕ} (hbuff : 1 < buff.length) :
    ∃ p, printZero buff = some p ∧ p.buff.length = buff.length ∧ p.Shows [code '0'] := by
  obtain ⟨a, b, tail, rfl⟩ : ∃ a b tail, buff = a :: b :: tail := by
    match buff, hbuff with
    | a :: b :: tail, _ => exact ⟨a, b, tail, rfl⟩
  refine ⟨⟨code '0' :: 0 :: tail, 0, 1⟩, ?_, rfl, by decide, rfl, [], tail, rfl, rfl⟩
  simp [printZero, put]

/-- The terminator and the digits of a number in their places. -/
theorem digits_placed {m : ℤ} {last : ℕ} {buff : List ℕ} (hm : (digitChars m).length ≤ last)
    (hpos : 0 < last) (hlast : last < 256) (hbuff : last < buff.length) :
    ∃ b front tail, put buff last 0 = some b ∧
      digitLoop m b (last - 1) =
        some (front ++ digitChars m ++ 0 :: tail, uchar (front.length - 1)) ∧
      front.length + (digitChars m).length = last ∧
      (front ++ digitChars m ++ 0 :: tail).length = buff.length := by
  obtain ⟨front, mid, tail, hmid, hfront, hput, hlength⟩ := exists_places hm hbuff
  have hindex : last - 1 = uchar ((front.length + mid.length : ℕ) - 1) := by
    rw [hfront, uchar]
    omega
  refine ⟨_, front, tail, hput, ?_, by omega, ?_⟩
  · rw [hindex, digitLoop_eq m front mid (0 :: tail) hmid (by omega)]
  · rw [← hlength]
    simp only [List.length_append, hmid]

/-- What `ToString` of an unsigned type prints. -/
theorem toStringUnsigned_shows {last x : ℕ} {buff : List ℕ} (hx : x < 10 ^ last) (hpos : 0 < last)
    (hlast : last < 256) (hbuff : last < buff.length) :
    ∃ p, toStringUnsigned last x buff = some p ∧ p.buff.length = buff.length ∧
      p.Shows (numeral x) := by
  by_cases hzero : x = 0
  · rw [toStringUnsigned, if_pos hzero, numeral, if_pos hzero]
    exact printZero_shows (by omega)
  · have hdigits : (digitChars x).length ≤ last := digitChars_length_le (by simpa using hx)
    obtain ⟨b, front, tail, hput, hloop, hfront, hlength⟩ :=
      digits_placed hdigits hpos hlast hbuff
    refine ⟨⟨front ++ digitChars x ++ 0 :: tail, front.length, (digitChars x).length⟩, ?_, hlength,
      ?_⟩
    · rw [toStringUnsigned, if_neg hzero, hput]
      simp only [Option.bind_eq_bind, Option.bind_some, hloop, Option.pure_def, Option.some.injEq,
        Printed.mk.injEq, true_and]
      rw [uchar, uchar, uchar]
      omega
    · rw [numeral, if_neg hzero, ← digitChars_natCast]
      exact ⟨zero_notMem_of_ge (digitChars_ge _), rfl, front, tail, rfl, rfl⟩

/-- What is taken apart into digits: the number without its sign, unless it is the minimum. -/
def magnitude (width : ℕ) (x : ℤ) : ℤ := if x < 0 then (x * -1).bmod (2 ^ width) else x

/-- The text of a number of a signed type of `width` bits. -/
def signedText (width : ℕ) (x : ℤ) : List ℕ :=
  if x = 0 then [code '0']
  else (if x < 0 then [code '-'] else []) ++ digitChars (magnitude width x)

/-- What `ToString` of a signed type prints, the minimum included. -/
theorem toStringSigned_shows {width last : ℕ} {x : ℤ} {buff : List ℕ}
    (hx : (magnitude width x).natAbs < 10 ^ (last - 1)) (hpos : 1 < last) (hlast : last < 256)
    (hbuff : last < buff.length) :
    ∃ p, toStringSigned width last x buff = some p ∧ p.buff.length = buff.length ∧
      p.Shows (signedText width x) := by
  by_cases hzero : x = 0
  · rw [toStringSigned, if_pos hzero, signedText, if_pos hzero]
    exact printZero_shows (by omega)
  rw [toStringSigned, if_neg hzero, signedText, if_neg hzero]
  have hdigits : (digitChars (magnitude width x)).length ≤ last - 1 := digitChars_length_le hx
  obtain ⟨b, front, tail, hput, hloop, hfront, hlength⟩ :=
    digits_placed (hdigits.trans (Nat.sub_le _ _)) (by omega) hlast hbuff
  have hdigitChars : 0 ∉ digitChars (magnitude width x) := zero_notMem_of_ge (digitChars_ge _)
  by_cases hneg : x < 0
  · -- a place is left for the sign
    obtain ⟨front, a, rfl⟩ : ∃ f a, front = f ++ [a] :=
      ⟨front.dropLast, _, (List.dropLast_append_getLast
        (List.ne_nil_of_length_pos (by omega))).symm⟩
    have hsign : uchar ((front ++ [a]).length - 1) = front.length := by
      rw [List.length_append, List.length_singleton] at hfront ⊢
      rw [uchar]
      omega
    have hbuffer : front ++ [a] ++ digitChars (magnitude width x) ++ 0 :: tail =
        front ++ a :: (digitChars (magnitude width x) ++ 0 :: tail) := by simp
    refine ⟨⟨front ++ code '-' :: (digitChars (magnitude width x) ++ 0 :: tail), front.length,
      (digitChars (magnitude width x)).length + 1⟩, ?_, ?_, ?_⟩
    · rw [hsign, hbuffer, magnitude, if_pos hneg] at hloop
      rw [hput]
      simp only [Option.bind_eq_bind, Option.bind_some, hneg, decide_true, if_true, hloop,
        put_append, Option.pure_def, Option.some.injEq, Printed.mk.injEq, true_and]
      rw [magnitude, if_pos hneg] at hfront ⊢
      rw [List.length_append, List.length_singleton] at hfront
      refine ⟨rfl, ?_⟩
      rw [uchar, uchar]
      omega
    · rw [← hlength]
      simp
    · rw [if_pos hneg]
      refine ⟨?_, rfl, front, tail, by simp, rfl⟩
      rw [List.singleton_append, List.mem_cons, not_or]
      exact ⟨by decide, hdigitChars⟩
  · refine ⟨⟨front ++ digitChars (magnitude width x) ++ 0 :: tail, front.length,
      (digitChars (magnitude width x)).length⟩, ?_, hlength, ?_⟩
    · have hmagnitude : magnitude width x = x := by rw [magnitude, if_neg hneg]
      rw [hmagnitude] at hloop hfront ⊢
      rw [hput]
      simp only [Option.bind_eq_bind, Option.bind_some, hneg, decide_false, if_false,
        Bool.false_eq_true, hloop, Option.pure_def, Option.some.injEq, Printed.mk.injEq, true_and]
      rw [uchar, uchar, uchar]
      omega
    · rw [if_neg hneg, List.nil_append]
      exact ⟨hdigitChars, rfl, front, tail, rfl, rfl⟩

/-! ### What is read -/

theorem digitsAt_eq {α : Type} (accumulate : α → ℕ → α) (x : α) (front ds : List ℕ) (c : ℕ)
    (tail : List ℕ) (hds : ∀ d ∈ ds, isDigit d = true) (hc : isDigit c = false) :
    digitsAt accumulate x (front ++ ds ++ c :: tail) front.length =
      some (ds.foldl (fun x d ↦ accumulate x (d - code '0')) x, front.length + ds.length) := by
  induction ds generalizing x front with
  | nil =>
    rw [digitsAt, dif_pos (by simp)]
    simp [hc]
  | cons d ds ih =>
    have hnext := ih (accumulate x (d - code '0')) (front ++ [d])
      fun e he ↦ hds e (List.mem_cons_of_mem _ he)
    have hd := hds d List.mem_cons_self
    rw [digitsAt, dif_pos (by simp)]
    simp only [List.append_assoc, List.cons_append, List.length_append, List.length_cons,
      List.length_nil, List.nil_append, Nat.zero_add, List.getElem_append_right, Nat.le_refl,
      Nat.sub_self, List.getElem_cons_zero, hd, if_true, List.foldl_cons] at hnext ⊢
    rw [hnext]
    simp [Nat.add_assoc, Nat.add_comm 1]

theorem isDigit_of_mem_numeral {n c : ℕ} (hc : c ∈ numeral n) : isDigit c = true := by
  rw [numeral] at hc
  split at hc
  · obtain rfl := List.mem_singleton.1 hc
    decide
  · exact Json.isDigit_of_mem_decimal hc

/-- The number that digits denote. -/
def value (ds : List ℕ) : ℕ := ds.foldl (fun x c ↦ x * 10 + (c - code '0')) 0

theorem foldl_eq (ds : List ℕ) (x : ℕ) :
    ds.foldl (fun x c ↦ x * 10 + (c - code '0')) x = x * 10 ^ ds.length + value ds := by
  induction ds using List.reverseRecOn with
  | nil => simp [value]
  | append_singleton ds d ih =>
    rw [value, List.foldl_append, List.foldl_append, ih, List.length_append, List.length_singleton,
      pow_succ]
    simp only [List.foldl_cons, List.foldl_nil, value]
    ring

theorem value_append (ds es : List ℕ) : value (ds ++ es) = value ds * 10 ^ es.length + value es := by
  rw [value, List.foldl_append, foldl_eq]
  rfl

/-- Zeros before the digits count for nothing. -/
theorem value_zeros_append (k : ℕ) (ds : List ℕ) :
    value (List.replicate k (code '0') ++ ds) = value ds := by
  induction k with
  | zero => rfl
  | succ k ih => exact ih

theorem value_numeral (n : ℕ) : value (numeral n) = n := by
  rw [numeral]
  split
  · rename_i hzero
    rw [hzero]
    rfl
  · exact Json.foldl_decimal n

/-- Accumulating in an unsigned word. -/
theorem foldl_value_mod (m : ℕ) (ds : List ℕ) :
    ds.foldl (fun x d ↦ (x * 10 + (d - code '0')) % m) 0 = value ds % m := by
  have hfold := Json.foldl_mod m ds 0
  rwa [Nat.zero_mod] at hfold

/-- Accumulating in a signed word. -/
theorem foldl_value_bmod (m : ℕ) (ds : List ℕ) :
    ds.foldl (fun (x : ℤ) d ↦ (x * 10 + (d - code '0' : ℕ)).bmod m) 0 = (value ds : ℤ).bmod m := by
  have hfold := Json.foldl_bmod m ds 0
  rwa [Nat.cast_zero, Int.zero_bmod] at hfold

/-- The reader of an unsigned type stops at the terminator with the number modulo the word. -/
theorem readUnsigned_numeral (width n : ℕ) (front tail : List ℕ) :
    readUnsigned width (front ++ numeral n ++ 0 :: tail) front.length =
      some (n % 2 ^ width, front.length + (numeral n).length) := by
  have hstep : (fun x d : ℕ ↦ ((x <<< 3) + (x <<< 1) + (d - code '0')) % 2 ^ width) =
      fun x d ↦ (x * 10 + (d - code '0')) % 2 ^ width := by
    funext x d
    rw [Nat.shiftLeft_eq, Nat.shiftLeft_eq]
    congr 2
    omega
  rw [readUnsigned, digitsAt_eq _ _ _ _ _ _ (fun d hd ↦ isDigit_of_mem_numeral hd) (by decide),
    hstep, foldl_value_mod, value_numeral]

/-- The reader of a signed type behind the sign. -/
theorem digitsAt_numeral (width n : ℕ) (front tail : List ℕ) :
    digitsAt (fun (x : ℤ) d ↦ (x * 10 + d).bmod (2 ^ width)) 0 (front ++ numeral n ++ 0 :: tail)
        front.length =
      some ((n : ℤ).bmod (2 ^ width), front.length + (numeral n).length) := by
  rw [digitsAt_eq _ _ _ _ _ _ (fun d hd ↦ isDigit_of_mem_numeral hd) (by decide),
    foldl_value_bmod, value_numeral]

theorem numeral_ne_nil (n : ℕ) : numeral n ≠ [] := by
  rw [numeral]
  split
  · simp
  · rename_i hzero
    obtain ⟨c, ds, hds, -⟩ := Json.decimal_of_pos (Nat.pos_of_ne_zero hzero)
    simp [hds]

/-- The reader of a signed type stops at the terminator with the number as a word. -/
theorem readSigned_canonical (width : ℕ) (x : ℤ) (front tail : List ℕ) :
    readSigned width (front ++ canonical x ++ 0 :: tail) front.length =
      some (x.bmod (2 ^ width), front.length + (canonical x).length) := by
  by_cases hneg : x < 0
  · have hbuffer : front ++ canonical x ++ 0 :: tail =
        (front ++ [code '-']) ++ numeral x.natAbs ++ 0 :: tail := by
      simp [canonical, hneg]
    have hread := digitsAt_numeral width x.natAbs (front ++ [code '-']) tail
    have hvalue : (-((x.natAbs : ℤ).bmod (2 ^ width))).bmod (2 ^ width) = x.bmod (2 ^ width) := by
      rw [← neg_one_mul, Int.mul_bmod_bmod, neg_one_mul]
      congr 1
      omega
    have hhead : (front ++ canonical x ++ 0 :: tail)[front.length]? = some (code '-') := by
      simp [canonical, hneg]
    rw [readSigned, hhead]
    simp only [Option.bind_eq_bind, Option.bind_some, decide_true, if_true]
    rw [List.length_append, List.length_singleton, ← hbuffer] at hread
    rw [hread]
    simp only [Option.bind_some, Option.pure_def, hvalue, canonical, if_pos hneg, List.length_append,
      List.length_singleton, Nat.add_assoc]
  · have hcanonical : canonical x = numeral x.natAbs := by simp [canonical, hneg]
    obtain ⟨c, ds, hds⟩ := List.exists_cons_of_ne_nil (numeral_ne_nil x.natAbs)
    have hc : c ≠ code '-' := by
      rintro rfl
      have hdigit : isDigit (code '-') = true :=
        isDigit_of_mem_numeral (n := x.natAbs) (by rw [hds]; exact List.mem_cons_self)
      exact absurd hdigit (by decide)
    have hhead : (front ++ numeral x.natAbs ++ 0 :: tail)[front.length]? = some c := by
      simp [hds]
    rw [hcanonical, readSigned, hhead]
    simp only [Option.bind_eq_bind, Option.bind_some, hc, decide_false, Bool.false_eq_true, if_false]
    rw [digitsAt_numeral]
    simp only [Option.bind_some, Option.pure_def]
    rw [Int.natAbs_of_nonneg (by omega)]

/-! ### Which numbers come back -/

theorem magnitude_natAbs_le {width : ℕ} (hwidth : 0 < width) {x : ℤ} (hmax : x < 2 ^ (width - 1)) :
    (magnitude width x).natAbs ≤ 2 ^ (width - 1) := by
  have hhalf : (2 : ℕ) ^ width = 2 * 2 ^ (width - 1) := by
    rw [← pow_succ', Nat.sub_add_cancel hwidth]
  rw [magnitude]
  split
  · have hlow := Int.le_bmod (x := x * -1) (show 0 < 2 ^ width by positivity)
    have hhigh := Int.bmod_lt (x := x * -1) (show 0 < 2 ^ width by positivity)
    rw [hhalf] at hlow hhigh ⊢
    omega
  · have hcast : ((2 : ℤ) ^ (width - 1)) = ((2 ^ (width - 1) : ℕ) : ℤ) := by norm_num
    omega

theorem bmod_eq_self {width : ℕ} (hwidth : 0 < width) {x : ℤ} (hmin : -2 ^ (width - 1) ≤ x)
    (hmax : x < 2 ^ (width - 1)) : x.bmod (2 ^ width) = x := by
  have hhalf : (2 : ℤ) ^ width = 2 * 2 ^ (width - 1) := by
    rw [← pow_succ', Nat.sub_add_cancel hwidth]
  apply Int.bmod_eq_of_le_mul_two
  · push_cast
    omega
  · push_cast
    omega

/-- A number above the minimum is printed in its canonical form. -/
theorem signedText_eq_canonical {width : ℕ} (hwidth : 0 < width) {x : ℤ}
    (hmin : -2 ^ (width - 1) < x) (hmax : x < 2 ^ (width - 1)) :
    signedText width x = canonical x := by
  have hmagnitude : magnitude width x = x.natAbs := by
    rw [magnitude]
    split
    · rw [bmod_eq_self hwidth (by omega) (by omega)]
      omega
    · omega
  rw [signedText, canonical, hmagnitude, digitChars_natCast, numeral]
  by_cases hzero : x = 0
  · simp [hzero]
  · rw [if_neg hzero, if_neg (by omega : ¬ x.natAbs = 0)]

/-- A negative number that is taken apart as it is leaves a character below the digits. -/
theorem exists_mem_digitChars_lt {x : ℤ} (hx : x < 0) : ∃ c ∈ digitChars x, c < code '0' := by
  have hcode : code '0' = 48 := rfl
  fun_induction digitChars x with
  | case1 => exact absurd hx (lt_irrefl 0)
  | case2 x hne ih =>
    by_cases hdiv : x.tdiv 10 < 0
    · obtain ⟨c, hc, hlt⟩ := ih hdiv
      exact ⟨c, List.mem_append_left _ hc, hlt⟩
    · refine ⟨_, List.mem_append_right _ List.mem_cons_self, ?_⟩
      have hparts := Int.tmod_add_mul_tdiv x 10
      omega

/-- **The minimum is not.** -/
theorem signedText_min {width : ℕ} (hwidth : 0 < width) :
    signedText width (-2 ^ (width - 1)) ≠ canonical (-2 ^ (width - 1)) := by
  have hpos : (0 : ℤ) < 2 ^ (width - 1) := by positivity
  have hhalf : (2 : ℕ) ^ width = 2 * 2 ^ (width - 1) := by
    rw [← pow_succ', Nat.sub_add_cancel hwidth]
  have hmagnitude : magnitude width (-2 ^ (width - 1)) = -2 ^ (width - 1) := by
    have hsame : (-2 ^ (width - 1) * -1 : ℤ) = -2 ^ (width - 1) + (2 ^ width : ℕ) := by
      rw [hhalf]
      push_cast
      ring
    have hword : (-2 ^ (width - 1) : ℤ).bmod (2 ^ width) = -2 ^ (width - 1) :=
      bmod_eq_self hwidth (le_refl _) (by omega)
    rw [magnitude, if_pos (by omega), hsame, Int.add_bmod_right, hword]
  intro htext
  rw [signedText, canonical, hmagnitude, if_neg (by omega), if_pos (by omega),
    List.append_cancel_left_eq] at htext
  obtain ⟨c, hc, hlt⟩ := exists_mem_digitChars_lt (x := -2 ^ (width - 1)) (by omega)
  have hdigit : isDigit c = true := isDigit_of_mem_numeral (htext ▸ hc)
  simp only [isDigit, Bool.and_eq_true, decide_eq_true_eq] at hdigit
  omega

theorem Printed.Shows.unique {p : Printed} {s t : List ℕ} (hs : p.Shows s) (ht : p.Shows t) :
    s = t := by
  obtain ⟨-, hlength, front, tail, hbuff, hstart⟩ := hs
  obtain ⟨-, hlength', front', tail', hbuff', hstart'⟩ := ht
  rw [hbuff', List.append_assoc, List.append_assoc] at hbuff
  obtain ⟨-, htexts⟩ := List.append_inj hbuff (hstart'.symm.trans hstart)
  exact (List.append_inj htexts (hlength'.symm.trans hlength)).1.symm

/-- The numbers of an unsigned type all come back. -/
theorem unsigned_comesBack {width last x : ℕ} (hx : x < 2 ^ width) (hfits : 2 ^ width ≤ 10 ^ last)
    (hpos : 0 < last) (hlast : last < 256) :
    ComesBack last (toStringUnsigned last) (readUnsigned width) (fun x ↦ (x : ℤ)) x := by
  intro buff hbuff
  obtain ⟨p, hprint, hlength, hshows⟩ :=
    toStringUnsigned_shows (hx.trans_le hfits) hpos hlast hbuff
  have hcanonical : canonical (x : ℤ) = numeral x := by simp [canonical]
  refine ⟨p, hprint, hlength, by rwa [hcanonical], ?_⟩
  obtain ⟨-, hchars, front, tail, hbuffer, hstart⟩ := hshows
  rw [hbuffer, hstart, readUnsigned_numeral, Nat.mod_eq_of_lt hx, hchars]

/-- Those of a signed type do, but for the minimum. -/
theorem signed_comesBack_iff {width last : ℕ} {x : ℤ} (hwidth : 0 < width)
    (hmin : -2 ^ (width - 1) ≤ x) (hmax : x < 2 ^ (width - 1))
    (hfits : 2 ^ (width - 1) < 10 ^ (last - 1)) (hpos : 1 < last) (hlast : last < 256) :
    ComesBack last (toStringSigned width last) (readSigned width) (fun x ↦ x) x ↔
      x ≠ -2 ^ (width - 1) := by
  have hmagnitude : (magnitude width x).natAbs < 10 ^ (last - 1) :=
    (magnitude_natAbs_le hwidth hmax).trans_lt hfits
  constructor
  · rintro hback rfl
    have hbuff : last < (List.replicate (last + 1) 0).length := by simp
    obtain ⟨p, hprint, -, hshows⟩ := toStringSigned_shows hmagnitude hpos hlast hbuff
    obtain ⟨q, hprint', -, hshows', -⟩ := hback _ hbuff
    obtain rfl : p = q := Option.some.inj (hprint.symm.trans hprint')
    exact signedText_min hwidth (hshows.unique hshows')
  · intro hne buff hbuff
    obtain ⟨p, hprint, hlength, hshows⟩ := toStringSigned_shows hmagnitude hpos hlast hbuff
    rw [signedText_eq_canonical hwidth (lt_of_le_of_ne hmin hne.symm) hmax] at hshows
    refine ⟨p, hprint, hlength, hshows, ?_⟩
    obtain ⟨-, hchars, front, tail, hbuffer, hstart⟩ := hshows
    rw [hbuffer, hstart, readSigned_canonical, bmod_eq_self hwidth hmin hmax, hchars]

/-- **Which integers come back as they were.** All but the minimum of a signed type. -/
theorem toString_comesBack_iff (i : Int32) (u : UInt32) (l : Int64) (m : UInt64) :
    (ComesBack 11 toStringInt atoi (fun x ↦ x) i.toInt ↔ i ≠ Int32.minValue) ∧
      ComesBack 10 toStringUInt atoui (fun x ↦ (x : ℤ)) u.toNat ∧
      (ComesBack 20 toStringInt64 atoll (fun x ↦ x) l.toInt ↔ l ≠ Int64.minValue) ∧
      ComesBack 20 toStringUInt64 atoull (fun x ↦ (x : ℤ)) m.toNat := by
  refine ⟨?_, ?_, ?_, ?_⟩
  · rw [toStringInt, atoi, signed_comesBack_iff (by decide) i.le_toInt i.toInt_lt (by decide)
      (by decide) (by decide), ne_eq, ne_eq, ← Int32.toInt_inj]
    rfl
  · exact unsigned_comesBack u.toNat_lt (by decide) (by decide) (by decide)
  · rw [toStringInt64, atoll, signed_comesBack_iff (by decide) l.le_toInt l.toInt_lt (by decide)
      (by decide) (by decide), ne_eq, ne_eq, ← Int64.toInt_inj]
    rfl
  · exact unsigned_comesBack m.toNat_lt (by decide) (by decide) (by decide)

/-- **The least `int` does not.** Its digits are taken as negative numbers. -/
theorem toStringInt_min :
    (∃ p, toStringInt (-2 ^ 31) (List.replicate 12 0) = some p ∧
        p.Shows ("-./,),(-*,(".toList.map code)) ∧
      ¬ ComesBack 11 toStringInt atoi (fun x ↦ x) (-2 ^ 31) := by
  have hloop := toStringLoop_eq 10 (-2 ^ 31) [] (by decide)
  have htext : signedText 32 (-2 ^ 31) = "-./,),(-*,(".toList.map code := by
    rw [signedText, if_neg (by decide), if_pos (by decide), magnitude, if_pos (by decide),
      show ((-2 ^ 31 * -1 : ℤ)).bmod (2 ^ 32) = -2 ^ 31 by decide,
      ← List.append_nil (digitChars _), ← hloop]
    decide
  constructor
  · have hmagnitude : (magnitude 32 (-2 ^ 31)).natAbs < 10 ^ (11 - 1) := by decide
    have hbuff : 11 < (List.replicate 12 0).length := by decide
    obtain ⟨p, hprint, -, hshows⟩ :=
      toStringSigned_shows hmagnitude (by decide) (by decide) hbuff
    exact ⟨p, hprint, htext ▸ hshows⟩
  · have hiff : ComesBack 11 (toStringSigned 32 11) (readSigned 32) (fun x ↦ x) (-2 ^ 31) ↔
        (-2 ^ 31 : ℤ) ≠ -2 ^ (32 - 1) :=
      signed_comesBack_iff (by decide) (by decide) (by decide) (by decide) (by decide) (by decide)
    exact fun hback ↦ hiff.1 hback rfl

end SocketPro.Text
