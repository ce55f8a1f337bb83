import SocketPro.Buffer.UDateTime
import SocketPro.Foundation.Rounding
import SocketPro.Text.Decimals

/-!
# Dates and times as texts

`Set`, `GetCTime`, `ToDBString` and `ParseFromDBString` of `UDateTime`. The text of a time has one
of five shapes, by which of its parts are zero, and the reader tells them apart by a colon and a
space.

**The fraction** is read as a `double`: the seven digits are divided by ten million and multiplied
by a billion again, each time rounded to 53 binary digits. What this changes is far below one
nanosecond, and half a nanosecond is added before the rest is cut off (`nanoseconds_fraction`).

**The day.** A time without a date has the day 0. `Set` asserts that a day is below 32 but not that
it is above 0, and keeps five bits of it: a negative multiple of 32 becomes a day 0 that has a year
and a month, and these are not printed (`dbString_comesBack_iff`).
-/

namespace SocketPro.Text

open SocketPro.Json (code cur isDigit)
open SocketPro.Buffer (UDateTime)

/-! ### Packing -/

/-- The members of `std::tm` that are used. -/
structure Tm where
  sec : ℤ
  min : ℤ
  hour : ℤ
  mday : ℤ
  mon : ℤ
  year : ℤ
deriving DecidableEq

/-- `MAX_NANO_SECONDS`. -/
def maxNanoSeconds : ℕ := 999999999

/-- The assignment of an `int` to a field of `width` bits. -/
def bitField (width : ℕ) (x : ℤ) : ℕ := (x % 2 ^ width).toNat

/-- `Set`. -/
def set (dt : Tm) (ns : ℕ) : UDateTime :=
  let ns := if ns > maxNanoSeconds then maxNanoSeconds else ns
  { Neg := if dt.mday ≠ 0 then if dt.year < 0 then 1 else 0 else 0
    Year := if dt.mday ≠ 0 then bitField 13 (if dt.year < 0 then -dt.year else dt.year) else 0
    Month := if dt.mday ≠ 0 then bitField 4 dt.mon else 0
    Day := if dt.mday ≠ 0 then bitField 5 dt.mday else 0
    Hour := bitField 5 dt.hour
    Minute := bitField 6 dt.min
    Second := bitField 6 dt.sec
    Ns100 := bitField 24 (ns / 100 : ℕ) }

/-- What `Set` asserts. -/
structure Asserted (dt : Tm) (ns : ℕ) : Prop where
  ns_le : ns ≤ maxNanoSeconds
  hour : 0 ≤ dt.hour ∧ dt.hour < 24
  min : 0 ≤ dt.min ∧ dt.min < 60
  sec : 0 ≤ dt.sec ∧ dt.sec < 60
  date : dt.mday ≠ 0 →
    (-8191 ≤ dt.year ∧ dt.year ≤ 8191) ∧ (0 ≤ dt.mon ∧ dt.mon ≤ 11) ∧ dt.mday < 32

/-- `GetCTime`. -/
def getCTime (u : UDateTime) : Tm where
  sec := u.Second
  min := u.Minute
  hour := u.Hour
  mday := u.Day
  mon := u.Month
  year := if u.Neg ≠ 0 then -u.Year else u.Year

/-- `Value()`: the 64-bit word that the fields make up. -/
def word (u : UDateTime) : ℕ :=
  u.Ns100 + u.Second * 2 ^ 24 + u.Minute * 2 ^ 30 + u.Hour * 2 ^ 36 + u.Day * 2 ^ 41 +
    u.Month * 2 ^ 46 + u.Year * 2 ^ 50 + u.Neg * 2 ^ 63

/-! ### Writing -/

/-- The conversion `%0d` of `printf` with a width: zeros between the sign and the digits. -/
def padZero (width : ℕ) (x : ℤ) : List ℕ :=
  let digits := numeral x.natAbs
  if x < 0 then code '-' :: (List.replicate (width - 1 - digits.length) (code '0') ++ digits)
  else List.replicate (width - digits.length) (code '0') ++ digits

/-- `"%04d-%02d-%02d"`. -/
def dateText (tm : Tm) : List ℕ :=
  padZero 4 (tm.year + 1900) ++
    code '-' :: (padZero 2 (tm.mon + 1) ++ code '-' :: padZero 2 tm.mday)

/-- `"%02d:%02d:%02d"`. -/
def clockText (tm : Tm) : List ℕ :=
  padZero 2 tm.hour ++ code ':' :: (padZero 2 tm.min ++ code ':' :: padZero 2 tm.sec)

/-- `".%07d"`. -/
def fractionText (ns : ℕ) : List ℕ := code '.' :: padZero 7 ns

/-- `ToDBString`. -/
def toDBString (u : UDateTime) : List ℕ :=
  let ns := u.Ns100
  let tm := getCTime u
  if ns ≠ 0 then
    if tm.mday ≠ 0 then dateText tm ++ code ' ' :: (clockText tm ++ fractionText ns)
    else clockText tm ++ fractionText ns
  else if tm.hour ≠ 0 ∨ tm.min ≠ 0 ∨ tm.sec ≠ 0 then
    if tm.mday ≠ 0 then dateText tm ++ code ' ' :: clockText tm else clockText tm
  else dateText tm

/-! ### Reading -/

/-- `atoi`, with the text at `end`. -/
def atoiText (p : List ℕ) : ℤ × List ℕ :=
  let neg : Bool := cur p = code '-'
  let r := Json.readDigits (fun (x : ℤ) d ↦ (x * 10 + d).bmod (2 ^ 32)) 0
    (if neg then p.tail else p)
  (if neg then (-r.1).bmod (2 ^ 32) else r.1, r.2)

/-- The `double` nearest to a number. -/
def double (q : ℚ) : ℚ := Rounding.toBits 53 q

/-- The digits behind a point as a fraction: `dot /= temp`. -/
def atofFraction (start : List ℕ) : ℚ × List ℕ :=
  let dot := Json.atoull start
  let temp := timesTen (start.length - dot.2.length) 1
  (double (double dot.1 / double temp), dot.2)

/-- `atof` behind the sign. -/
def atofAbs (p : List ℕ) : ℚ × List ℕ :=
  let r := Json.atoull p
  if cur r.2 = code '.' then
    let dot := atofFraction r.2.tail
    (double (double r.1 + dot.1), dot.2)
  else (double r.1, r.2)

/-- `atof`, with the text at `end`. -/
def atof (p : List ℕ) : ℚ × List ℕ :=
  if cur p = code '-' then (-(atofAbs p.tail).1, (atofAbs p.tail).2) else atofAbs p

/-- `(unsigned int) (x * 1000000000 + 0.5)`. -/
def nanoseconds (x : ℚ) : ℕ := ⌊double (double (x * 1000000000) + 1 / 2)⌋.toNat % 2 ^ 32

/-- What `ParseTime` assigns. -/
structure Clock where
  hour : ℤ
  min : ℤ
  second : ℤ
  ns : ℕ

/-- `ParseTime`. -/
def parseTime (str : List ℕ) : Clock :=
  let hour := atoiText str
  let min := atoiText hour.2.tail
  let second := atoiText min.2.tail
  ⟨hour.1, min.1, second.1,
    if cur second.2 = code '.' then nanoseconds (atof second.2).1 else 0⟩

/-- `ParseDateTime`: the year, the month, the day and the time of day. -/
def parseDateTime (str : List ℕ) : ℤ × ℤ × ℤ × Clock :=
  let year := atoiText str
  let month := atoiText year.2.tail
  let day := atoiText month.2.tail
  (year.1, month.1, day.1,
    if cur day.2 = code ' ' then parseTime day.2.tail else ⟨0, 0, 0, 0⟩)

/-- `ParseFromDBString`. -/
def parseFromDBString (str : List ℕ) : UDateTime :=
  if code ' ' ∉ str ∧ code ':' ∈ str then
    let c := parseTime str
    set ⟨c.second, c.min, c.hour, 0, 0, 0⟩ c.ns
  else
    let (year, month, day, c) := parseDateTime str
    set ⟨c.second, c.min, c.hour, day, month - 1, year - 1900⟩ c.ns

/-! ### Numbers in a text -/

theorem isDigit_of_mem_zeros_numeral {k n c : ℕ}
    (hc : c ∈ List.replicate k (code '0') ++ numeral n) : isDigit c = true := by
  rcases List.mem_append.1 hc with hc | hc
  · rw [List.eq_of_mem_replicate hc]
    decide
  · exact isDigit_of_mem_numeral hc

theorem mem_padZero {width : ℕ} {x : ℤ} {c : ℕ} (hc : c ∈ padZero width x) :
    c = code '-' ∨ isDigit c = true := by
  rw [padZero] at hc
  split at hc
  · rcases List.mem_cons.1 hc with hc | hc
    · exact .inl hc
    · exact .inr (isDigit_of_mem_zeros_numeral hc)
  · exact .inr (isDigit_of_mem_zeros_numeral hc)

/-- `atoi` accumulates what is behind its sign. -/
theorem atoiText_minus (p : List ℕ) :
    atoiText (code '-' :: p) =
      ((-(Json.readDigits (fun (x : ℤ) d ↦ (x * 10 + d).bmod (2 ^ 32)) 0 p).1).bmod (2 ^ 32),
        (Json.readDigits (fun (x : ℤ) d ↦ (x * 10 + d).bmod (2 ^ 32)) 0 p).2) := rfl

theorem atoiText_of_ne {p : List ℕ} (hp : cur p ≠ code '-') :
    atoiText p = Json.readDigits (fun (x : ℤ) d ↦ (x * 10 + d).bmod (2 ^ 32)) 0 p := by
  rw [atoiText]
  simp only [hp, decide_false, Bool.false_eq_true, if_false]

theorem readDigits_zeros_numeral (k n : ℕ) {rest : List ℕ} (hrest : isDigit (cur rest) = false) :
    Json.readDigits (fun (x : ℤ) d ↦ (x * 10 + d).bmod (2 ^ 32)) 0
        (List.replicate k (code '0') ++ numeral n ++ rest) = ((n : ℤ).bmod (2 ^ 32), rest) := by
  rw [Json.readDigits_append _ _ (fun d hd ↦ isDigit_of_mem_zeros_numeral hd) hrest,
    foldl_value_bmod, value_zeros_append, value_numeral]

/-- A number that was printed is read back up to the next character that is no digit. -/
theorem atoiText_padZero {width : ℕ} {x : ℤ} {rest : List ℕ} (hmin : -2 ^ 31 < x)
    (hmax : x < 2 ^ 31) (hrest : isDigit (cur rest) = false) :
    atoiText (padZero width x ++ rest) = (x, rest) := by
  have hword {y : ℤ} (hy : -2 ^ 31 < y) (hy' : y < 2 ^ 31) : y.bmod (2 ^ 32) = y :=
    @bmod_eq_self 32 (by decide) _ hy.le hy'
  rw [padZero]
  split
  · have hneg : -(x.natAbs : ℤ) = x := by omega
    rw [List.cons_append, atoiText_minus, readDigits_zeros_numeral _ _ hrest]
    simp only
    rw [hword (by omega : -2 ^ 31 < (x.natAbs : ℤ)) (by omega), hneg, hword hmin hmax]
  · have hhead : cur (List.replicate (width - (numeral x.natAbs).length) (code '0') ++
        numeral x.natAbs ++ rest) ≠ code '-' := by
      have hdigit {c : ℕ} (hc : c ∈ List.replicate (width - (numeral x.natAbs).length) (code '0') ++
          numeral x.natAbs) := isDigit_of_mem_zeros_numeral hc
      obtain ⟨c, ds, hds⟩ := List.exists_cons_of_ne_nil (List.append_ne_nil_of_right_ne_nil
        (List.replicate (width - (numeral x.natAbs).length) (code '0')) (numeral_ne_nil x.natAbs))
      have hc : isDigit c = true := hdigit (hds ▸ List.mem_cons_self)
      rw [hds, List.cons_append, cur, List.headD_cons]
      rintro rfl
      exact absurd hc (by decide)
    rw [atoiText_of_ne hhead, readDigits_zeros_numeral _ _ hrest, hword (by omega) (by omega)]
    exact Prod.ext (by omega) rfl

/-! ### The fraction -/

theorem numeral_length_le {k n : ℕ} (hk : 0 < k) (hn : n < 10 ^ k) : (numeral n).length ≤ k := by
  rw [numeral]
  split
  · exact hk
  · rw [← digitChars_natCast]
    exact digitChars_length_le (by simpa using hn)

/-- A number that has no more digits than places fills them all. -/
theorem length_padZero {width n : ℕ} (hwidth : 0 < width) (hn : n < 10 ^ width) :
    (padZero width n).length = width := by
  have hdigits := numeral_length_le hwidth hn
  rw [padZero]
  simp only [Int.natAbs_natCast]
  rw [if_neg (by omega), List.length_append, List.length_replicate]
  omega

theorem timesTen_one {k : ℕ} (hk : k < 20) : timesTen k 1 = 10 ^ k := by
  interval_cases k <;> decide

/-- A `double` is as near to a positive number as one part in `2 ^ 53`. -/
theorem double_near {q : ℚ} (hq : 0 < q) :
    q * (1 - 1 / 2 ^ 53) ≤ double q ∧ double q ≤ q * (1 + 1 / 2 ^ 53) :=
  ⟨Rounding.le_toBits hq, Rounding.toBits_le hq⟩

theorem double_natCast {n : ℕ} (hn : n < 2 ^ 53) : double n = n := by
  have hexact := Rounding.toBits_exact (e := 0) hn
  rwa [zpow_zero, mul_one] at hexact

/-- What the reader makes of seven digits behind a point. -/
theorem atof_fraction {v : ℕ} (hv : v < 10 ^ 7) :
    atof (fractionText v) = (double (double (v / 10 ^ 7)), []) := by
  have hdigits : ∀ d ∈ padZero 7 v, isDigit d = true := by
    rw [padZero, if_neg (by omega)]
    exact fun d hd ↦ isDigit_of_mem_zeros_numeral hd
  have hvalue : value (padZero 7 v) = v := by
    rw [padZero, if_neg (by omega), value_zeros_append, value_numeral, Int.natAbs_natCast]
  have hdot : Json.atoull (padZero 7 v) = (v, []) := by
    have hall := @atoull_append (padZero 7 v) [] hdigits (by decide)
    rwa [List.append_nil, hvalue, Nat.mod_eq_of_lt (by omega)] at hall
  have hfraction : atofFraction (padZero 7 v) = (double (v / 10 ^ 7), []) := by
    have hten : ((10 ^ 7 : ℕ) : ℚ) = 10 ^ 7 := by norm_num
    rw [atofFraction, hdot]
    simp only [List.length_nil, Nat.sub_zero]
    rw [length_padZero (by decide) hv, timesTen_one (by decide), double_natCast (by omega),
      double_natCast (by decide), hten]
  have hwhole : Json.atoull (fractionText v) = (0, fractionText v) := by
    rw [fractionText, Json.atoull, Json.readDigits, if_neg (by decide)]
  have hminus : cur (fractionText v) ≠ code '-' := by
    rw [fractionText, cur, List.headD_cons]
    decide
  have hpoint : cur (fractionText v) = code '.' := rfl
  have htail : (fractionText v).tail = padZero 7 v := rfl
  rw [atof, if_neg hminus, atofAbs, hwhole]
  simp only
  rw [if_pos hpoint, htail, hfraction, double_natCast (by decide), Nat.cast_zero, zero_add]

/-- **The fraction comes back.** Cut to 100 nanoseconds it is the number that was printed. -/
theorem nanoseconds_fraction {v : ℕ} (hv : v < 10 ^ 7) (hpos : 0 < v) :
    nanoseconds (atof (fractionText v)).1 / 100 = v ∧
      nanoseconds (atof (fractionText v)).1 ≤ maxNanoSeconds := by
  have hv' : (v : ℚ) < 10 ^ 7 := by exact_mod_cast hv
  have hpos' : (1 : ℚ) ≤ v := by exact_mod_cast hpos
  -- the quotient, its sum with zero and the product are off by one part in 2 ^ 53 each
  obtain ⟨hlow₁, hhigh₁⟩ := double_near (show (0 : ℚ) < v / 10 ^ 7 by positivity)
  obtain ⟨hlow₂, hhigh₂⟩ := double_near (show 0 < double (v / 10 ^ 7) by linarith)
  obtain ⟨hlow₃, hhigh₃⟩ :=
    double_near (show 0 < double (double (v / 10 ^ 7)) * 1000000000 by linarith)
  obtain ⟨hlow₄, hhigh₄⟩ := double_near
    (show 0 < double (double (double (v / 10 ^ 7)) * 1000000000) + 1 / 2 by linarith)
  rw [nanoseconds, atof_fraction hv]
  generalize double (double (double (double (↑v / 10 ^ 7)) * 1000000000) + 1 / 2) = x₄ at *
  generalize double (double (double (↑v / 10 ^ 7)) * 1000000000) = x₃ at *
  generalize double (double (↑v / 10 ^ 7)) = x₂ at *
  generalize double (↑v / 10 ^ 7) = x₁ at *
  have hlow : (100 * v : ℕ) ≤ x₄ := by
    push_cast
    linarith
  have hhigh : x₄ < (100 * v + 100 : ℕ) := by
    push_cast
    linarith
  have hfloor : ((100 * v : ℕ) : ℤ) ≤ ⌊x₄⌋ := Int.le_floor.2 (by exact_mod_cast hlow)
  have hfloor' : ⌊x₄⌋ < ((100 * v + 100 : ℕ) : ℤ) := Int.floor_lt.2 (by exact_mod_cast hhigh)
  obtain ⟨k, hk⟩ : ∃ k : ℕ, ⌊x₄⌋ = k := ⟨⌊x₄⌋.toNat, by omega⟩
  rw [hk, Int.ofNat_le] at hfloor
  rw [hk, Int.ofNat_lt] at hfloor'
  have hmod : k % 2 ^ 32 = k := Nat.mod_eq_of_lt (by omega)
  rw [hk, Int.toNat_natCast, hmod, maxNanoSeconds]
  omega

/-! ### Reading the parts -/

/-- The fields are within their ranges. -/
structure InRange (u : UDateTime) : Prop where
  ns100 : u.Ns100 < 10 ^ 7
  second : u.Second < 60
  minute : u.Minute < 60
  hour : u.Hour < 24
  day : u.Day < 32
  month : u.Month < 12
  year : u.Year < 2 ^ 13
  neg : u.Neg < 2
  neg_year : u.Neg ≠ 0 → u.Year ≠ 0

/-- `Set` with a time of day only. -/
theorem set_of_no_day {dt : Tm} {ns : ℕ} (h : Asserted dt ns) (hday : dt.mday = 0) :
    set dt ns = ⟨ns / 100, dt.sec.toNat, dt.min.toNat, dt.hour.toNat, 0, 0, 0, 0⟩ := by
  obtain ⟨hns, hhour, hmin, hsec, -⟩ := h
  have hcap : (if ns > maxNanoSeconds then maxNanoSeconds else ns) = ns := if_neg (by omega)
  have hmax : maxNanoSeconds = 999999999 := rfl
  simp only [set, hday, ne_eq, not_true_eq_false, if_false, hcap, bitField]
  rw [UDateTime.mk.injEq]
  omega

/-- `Set` with a date. -/
theorem set_of_day {dt : Tm} {ns : ℕ} (h : Asserted dt ns) (hday : dt.mday ≠ 0) :
    set dt ns = ⟨ns / 100, dt.sec.toNat, dt.min.toNat, dt.hour.toNat, (dt.mday % 32).toNat,
      dt.mon.toNat, dt.year.natAbs, if dt.year < 0 then 1 else 0⟩ := by
  obtain ⟨hns, hhour, hmin, hsec, hdate⟩ := h
  obtain ⟨hyear, hmon, -⟩ := hdate hday
  have habs : (if dt.year < 0 then -dt.year else dt.year) = dt.year.natAbs := by
    split <;> omega
  have hcap : (if ns > maxNanoSeconds then maxNanoSeconds else ns) = ns := if_neg (by omega)
  have hmax : maxNanoSeconds = 999999999 := rfl
  simp only [set, hday, ne_eq, not_false_eq_true, if_true, hcap, bitField, habs]
  rw [UDateTime.mk.injEq]
  omega

theorem inRange_set {dt : Tm} {ns : ℕ} (h : Asserted dt ns) : InRange (set dt ns) := by
  obtain ⟨hns, hhour, hmin, hsec, hdate⟩ := id h
  have hmax : maxNanoSeconds = 999999999 := rfl
  by_cases hday : dt.mday = 0
  · rw [set_of_no_day h hday]
    constructor <;> simp only <;> omega
  · obtain ⟨hyear, hmon, -⟩ := hdate hday
    have hneg : (if dt.year < 0 then 1 else 0) < 2 ∧
        ((if dt.year < 0 then 1 else 0) ≠ 0 → dt.year.natAbs ≠ 0) := by
      split <;> omega
    rw [set_of_day h hday]
    constructor <;> simp only <;> omega

variable {u : UDateTime}

theorem isDigit_cur_cons {c : ℕ} (hc : isDigit c = false) (rest : List ℕ) :
    isDigit (cur (c :: rest)) = false := hc

/-- The time of day is read back, and what stands behind it. -/
theorem parseTime_clockText (hu : InRange u) {rest : List ℕ} (hrest : isDigit (cur rest) = false) :
    parseTime (clockText (getCTime u) ++ rest) = ⟨u.Hour, u.Minute, u.Second,
      if cur rest = code '.' then nanoseconds (atof rest).1 else 0⟩ := by
  obtain ⟨-, hsecond, hminute, hhour, -⟩ := hu
  have hcolon : isDigit (code ':') = false := by decide
  have hread {x : ℕ} (hx : x < 60) {rest : List ℕ} (hrest : isDigit (cur rest) = false) :
      atoiText (padZero 2 x ++ rest) = ((x : ℤ), rest) :=
    atoiText_padZero (by omega) (by omega) hrest
  rw [clockText, List.append_assoc, List.cons_append, List.append_assoc, List.cons_append]
  simp only [getCTime, parseTime, hread (by omega : u.Hour < 60) (isDigit_cur_cons hcolon _),
    hread hminute (isDigit_cur_cons hcolon _), hread hsecond hrest, List.tail_cons]

/-- So is the date. -/
theorem parseDateTime_dateText (hu : InRange u) {rest : List ℕ}
    (hrest : isDigit (cur rest) = false) :
    parseDateTime (dateText (getCTime u) ++ rest) =
      ((getCTime u).year + 1900, (getCTime u).mon + 1, (getCTime u).mday,
        if cur rest = code ' ' then parseTime rest.tail else ⟨0, 0, 0, 0⟩) := by
  obtain ⟨-, -, -, -, hday, hmonth, hyear, -⟩ := hu
  have hminus : isDigit (code '-') = false := by decide
  have hbounds : (-8192 < (getCTime u).year ∧ (getCTime u).year < 8192) ∧
      (0 ≤ (getCTime u).mon ∧ (getCTime u).mon < 12) ∧
      0 ≤ (getCTime u).mday ∧ (getCTime u).mday < 32 := by
    simp only [getCTime]
    split <;> omega
  rw [dateText, List.append_assoc, List.cons_append, List.append_assoc, List.cons_append]
  simp only [parseDateTime, List.tail_cons,
    atoiText_padZero (by omega : -2 ^ 31 < (getCTime u).year + 1900) (by omega)
      (isDigit_cur_cons hminus _),
    atoiText_padZero (by omega : -2 ^ 31 < (getCTime u).mon + 1) (by omega)
      (isDigit_cur_cons hminus _),
    atoiText_padZero (by omega : -2 ^ 31 < (getCTime u).mday) (by omega) hrest]

/-! ### Telling the shapes apart -/

theorem notMem_padZero {c : ℕ} (hminus : c ≠ code '-') (hdigit : isDigit c = false) (width : ℕ)
    (x : ℤ) : c ∉ padZero width x := by
  intro hc
  rcases mem_padZero hc with hc | hc
  · exact hminus hc
  · exact absurd (hdigit.symm.trans hc) (by decide)

theorem colon_mem_clockText (tm : Tm) : code ':' ∈ clockText tm := by
  simp [clockText]

theorem colon_notMem_dateText (tm : Tm) : code ':' ∉ dateText tm := by
  have hpad (width : ℕ) (x : ℤ) : code ':' ∉ padZero width x :=
    notMem_padZero (by decide) (by decide) width x
  have hminus : code ':' ≠ code '-' := by decide
  simp [dateText, hpad, hminus]

theorem space_notMem_clockText (tm : Tm) : code ' ' ∉ clockText tm := by
  have hpad (width : ℕ) (x : ℤ) : code ' ' ∉ padZero width x :=
    notMem_padZero (by decide) (by decide) width x
  have hcolon : code ' ' ≠ code ':' := by decide
  simp [clockText, hpad, hcolon]

theorem space_notMem_fractionText (ns : ℕ) : code ' ' ∉ fractionText ns := by
  have hpad : code ' ' ∉ padZero 7 ns := notMem_padZero (by decide) (by decide) 7 ns
  have hpoint : code ' ' ≠ code '.' := by decide
  simp [fractionText, hpad, hpoint]

/-! ### The round trip -/

/-- What the fields are without the date. -/
def withoutDate (u : UDateTime) : UDateTime := { u with Day := 0, Month := 0, Year := 0, Neg := 0 }

/-- `Set` packs what `GetCTime` gives, the date only if there is a day. -/
theorem set_getCTime (hu : InRange u) {ns : ℕ} (hns : ns / 100 = u.Ns100)
    (hmax : ns ≤ maxNanoSeconds) :
    set (getCTime u) ns = if u.Day = 0 then withoutDate u else u := by
  obtain ⟨hns100, hsecond, hminute, hhour, hday, hmonth, hyear, hneg, hnegYear⟩ := hu
  have hyears : -8192 < (getCTime u).year ∧ (getCTime u).year < 8192 := by
    simp only [getCTime]
    split <;> omega
  have hasserted : Asserted (getCTime u) ns := by
    refine ⟨hmax, ?_, ?_, ?_, fun _ ↦ ⟨by omega, ?_, ?_⟩⟩
    · simp only [getCTime]
      omega
    · simp only [getCTime]
      omega
    · simp only [getCTime]
      omega
    · simp only [getCTime]
      omega
    · simp only [getCTime]
      omega
  split
  · rename_i hzero
    rw [set_of_no_day hasserted (by simp [getCTime, hzero]), hns]
    simp [getCTime, withoutDate]
  · rename_i hne
    rw [set_of_day hasserted (by simp [getCTime, hne]), hns]
    have hfields : (getCTime u).year.natAbs = u.Year ∧
        (if (getCTime u).year < 0 then 1 else 0) = u.Neg := by
      simp only [getCTime]
      split <;> split <;> omega
    rw [hfields.1, hfields.2]
    simp only [getCTime]
    rw [UDateTime.mk.injEq]
    omega

/-- Without a day the date does not matter. -/
theorem set_clock (hu : InRange u) {ns : ℕ} (hns : ns / 100 = u.Ns100)
    (hmax : ns ≤ maxNanoSeconds) :
    set ⟨u.Second, u.Minute, u.Hour, 0, 0, 0⟩ ns = withoutDate u := by
  have hrange : InRange (withoutDate u) := by
    refine ⟨hu.ns100, hu.second, hu.minute, hu.hour, ?_, ?_, ?_, ?_, fun h ↦ absurd rfl h⟩
    all_goals exact Nat.zero_lt_succ _
  have hset := set_getCTime hrange hns hmax
  simpa [withoutDate, getCTime] using hset

/-- The fraction as far as it is printed. -/
def fraction (u : UDateTime) : List ℕ := if u.Ns100 ≠ 0 then fractionText u.Ns100 else []

/-- The five shapes are three with an optional fraction. -/
theorem toDBString_eq (u : UDateTime) :
    toDBString u =
      if u.Ns100 = 0 ∧ u.Hour = 0 ∧ u.Minute = 0 ∧ u.Second = 0 then dateText (getCTime u)
      else if u.Day = 0 then clockText (getCTime u) ++ fraction u
      else dateText (getCTime u) ++ code ' ' :: (clockText (getCTime u) ++ fraction u) := by
  have hmday : (getCTime u).mday ≠ 0 ↔ ¬ u.Day = 0 := by simp [getCTime]
  have htime : ((getCTime u).hour ≠ 0 ∨ (getCTime u).min ≠ 0 ∨ (getCTime u).sec ≠ 0) ↔
      ¬ (u.Hour = 0 ∧ u.Minute = 0 ∧ u.Second = 0) := by
    simp only [getCTime]
    omega
  rw [toDBString]
  simp only [hmday, htime, fraction]
  by_cases hns : u.Ns100 = 0
  · simp only [hns, ne_eq, not_true_eq_false, if_false, true_and, List.append_nil, ite_not]
  · simp only [hns, ne_eq, not_false_eq_true, if_true, false_and, if_false, ite_not]

theorem parseTime_fraction (hu : InRange u) :
    ∃ ns, parseTime (clockText (getCTime u) ++ fraction u) = ⟨u.Hour, u.Minute, u.Second, ns⟩ ∧
      ns / 100 = u.Ns100 ∧ ns ≤ maxNanoSeconds := by
  by_cases hns : u.Ns100 = 0
  · have hfraction : fraction u = [] := by simp [fraction, hns]
    refine ⟨0, ?_, hns.symm, Nat.zero_le _⟩
    rw [hfraction, parseTime_clockText hu (by decide), if_neg (by decide)]
  · have hfraction : fraction u = fractionText u.Ns100 := by simp [fraction, hns]
    obtain ⟨hvalue, hmax⟩ := nanoseconds_fraction hu.ns100 (Nat.pos_of_ne_zero hns)
    have hpoint : isDigit (cur (fractionText u.Ns100)) = false := by
      show isDigit (code '.') = false
      decide
    refine ⟨_, ?_, hvalue, hmax⟩
    rw [hfraction, parseTime_clockText hu hpoint]
    rfl

/-- **What is read back.** Without a day, there is no date. -/
theorem parseFromDBString_toDBString (hu : InRange u) :
    parseFromDBString (toDBString u) = if u.Day = 0 then withoutDate u else u := by
  obtain ⟨ns, hclock, hns, hmax⟩ := parseTime_fraction hu
  have hspace : isDigit (code ' ') = false := by decide
  have htm : (⟨u.Second, u.Minute, u.Hour, (getCTime u).mday, (getCTime u).mon + 1 - 1,
      (getCTime u).year + 1900 - 1900⟩ : Tm) = getCTime u := by
    rw [add_sub_cancel_right, add_sub_cancel_right]
    rfl
  rw [toDBString_eq]
  split
  · -- the date alone
    rename_i hzero
    obtain ⟨hns100, hhour, hminute, hsecond⟩ := hzero
    have hdate := parseDateTime_dateText hu (show isDigit (cur []) = false by decide)
    rw [List.append_nil] at hdate
    have hset := @set_getCTime u hu 0 hns100.symm (Nat.zero_le _)
    rw [parseFromDBString, if_neg fun h ↦ colon_notMem_dateText _ h.2, hdate, ← hset, ← htm]
    simp [hhour, hminute, hsecond, cur, code]
  · split
    · -- the time of day alone
      rename_i hday
      have hnoSpace : code ' ' ∉ clockText (getCTime u) ++ fraction u := by
        rw [List.mem_append, not_or, fraction]
        refine ⟨space_notMem_clockText _, ?_⟩
        split
        · exact space_notMem_fractionText _
        · exact List.not_mem_nil
      rw [parseFromDBString, if_pos ⟨hnoSpace, List.mem_append_left _ (colon_mem_clockText _)⟩,
        hclock]
      exact set_clock hu hns hmax
    · rename_i hday
      have hdate := @parseDateTime_dateText u hu
        (code ' ' :: (clockText (getCTime u) ++ fraction u)) hspace
      have hcur : cur (code ' ' :: (clockText (getCTime u) ++ fraction u)) = code ' ' := rfl
      rw [hcur, if_pos rfl, List.tail_cons, hclock] at hdate
      rw [parseFromDBString, if_neg fun h ↦ h.1 (by simp), hdate]
      simp only [htm]
      rw [set_getCTime hu hns hmax, if_neg hday]

theorem word_withoutDate_iff (hday : u.Day = 0) :
    word (withoutDate u) = word u ↔ u.Year = 0 ∧ u.Month = 0 ∧ u.Neg = 0 := by
  simp only [word, withoutDate]
  omega

/-- **Which times come back.** All that `Set` takes with the fields it asserts, unless the day is
negative and a multiple of 32 and a year or a month is kept with it. -/
theorem dbString_comesBack_iff {dt : Tm} {ns : ℕ} (h : Asserted dt ns) :
    word (parseFromDBString (toDBString (set dt ns))) = word (set dt ns) ↔
      ¬ ((dt.mday < 0 ∧ 32 ∣ dt.mday) ∧ (dt.year ≠ 0 ∨ dt.mon ≠ 0)) := by
  rw [parseFromDBString_toDBString (inRange_set h)]
  by_cases hday : dt.mday = 0
  · rw [set_of_no_day h hday]
    simp [withoutDate, hday]
  · obtain ⟨hyear, hmon, hmday⟩ := h.date hday
    have hfields := set_of_day h hday
    split
    · rename_i hzero
      rw [word_withoutDate_iff hzero]
      rw [hfields] at hzero ⊢
      simp only at hzero ⊢
      constructor
      · intro hkept
        split at hkept <;> omega
      · intro hnot
        split <;> omega
    · rename_i hne
      rw [hfields] at hne
      simp only at hne
      refine iff_of_true rfl ?_
      omega

/-- The last 100 nanoseconds of the year before the year 0. -/
theorem dbString_comesBack_year_minus_one :
    word (parseFromDBString (toDBString (set ⟨59, 59, 23, 31, 11, -1901⟩ 999999999))) =
        word (set ⟨59, 59, 23, 31, 11, -1901⟩ 999999999) ↔
      ¬ (((31 : ℤ) < 0 ∧ (32 : ℤ) ∣ 31) ∧ ((-1901 : ℤ) ≠ 0 ∨ (11 : ℤ) ≠ 0)) :=
  @dbString_comesBack_iff ⟨59, 59, 23, 31, 11, -1901⟩ 999999999
    ⟨by decide, by decide, by decide, by decide, fun _ ↦ by decide⟩

/-- **The day -32 of June 2012 is taken, but not printed.** -/
theorem dbString_negative_day :
    Asserted ⟨0, 0, 12, -32, 5, 112⟩ 0 ∧
      toDBString (set ⟨0, 0, 12, -32, 5, 112⟩ 0) = "12:00:00".toList.map code ∧
      ¬ ∀ (dt : Tm) (ns : ℕ), Asserted dt ns →
        word (parseFromDBString (toDBString (set dt ns))) = word (set dt ns) := by
  have hasserted : Asserted ⟨0, 0, 12, -32, 5, 112⟩ 0 :=
    ⟨by decide, by decide, by decide, by decide, fun _ ↦ by decide⟩
  refine ⟨hasserted, ?_, fun hall ↦ ?_⟩
  · rw [set_of_day hasserted (by decide), toDBString_eq, if_neg (by decide), if_pos (by decide)]
    simp [clockText, padZero, numeral, Json.decimal, getCTime, fraction]
    decide
  · have hword := hall _ _ hasserted
    rw [parseFromDBString_toDBString (inRange_set hasserted),
      set_of_day hasserted (by decide)] at hword
    exact absurd hword (by decide)

end SocketPro.Text
