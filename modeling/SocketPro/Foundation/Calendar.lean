import Mathlib.Data.Int.ModEq

/-!
# The Gregorian calendar

Days and times of day with their fields in range, and what out-of-range fields normalise to: months
overflow into years, and days are counted on from the first of the month.

**Fields in range are left alone** (`Time.ofFields_of_valid`), so a date that is taken apart and put
together again is the same.
-/

namespace Calendar

def isLeap (year : ℤ) : Bool := year % 4 = 0 && (year % 100 != 0 || year % 400 = 0)

/-- The number of days of a month, 1 to 12. -/
def daysIn (year : ℤ) (month : ℕ) : ℕ :=
  match month with
  | 2 => if isLeap year then 29 else 28
  | 4 | 6 | 9 | 11 => 30
  | _ => 31

theorem le_daysIn (year : ℤ) (month : ℕ) : 28 ≤ daysIn year month := by
  unfold daysIn
  split
  · split <;> decide
  all_goals decide

theorem daysIn_le (year : ℤ) (month : ℕ) : daysIn year month ≤ 31 := by
  unfold daysIn
  split
  · split <;> decide
  all_goals decide

theorem daysIn_february_le (year : ℤ) : daysIn year 2 ≤ 29 := by
  show (if isLeap year then 29 else 28) ≤ 29
  split <;> decide

/-- Only February depends on the year. -/
theorem daysIn_congr (year year' : ℤ) {month : ℕ} (h : month ≠ 2) :
    daysIn year month = daysIn year' month := by
  unfold daysIn
  split
  · exact absurd rfl h
  all_goals rfl

/-- The fields of a day are in range. -/
def ValidDate (year : ℤ) (month day : ℕ) : Prop :=
  (1 ≤ month ∧ month ≤ 12) ∧ 1 ≤ day ∧ day ≤ daysIn year month

instance (year : ℤ) (month day : ℕ) : Decidable (ValidDate year month day) :=
  inferInstanceAs (Decidable (_ ∧ _))

/-- A day. -/
@[ext] structure Date where
  year : ℤ
  month : ℕ
  day : ℕ
  valid : ValidDate year month day
deriving DecidableEq

namespace Date

/-- The first of a month; months from 12 on belong to later years, months below 0 to earlier ones. -/
def first (year month₀ : ℤ) : Date where
  year := year + month₀ / 12
  month := (month₀ % 12).toNat + 1
  day := 1
  valid := by
    refine ⟨⟨by omega, by omega⟩, le_rfl, ?_⟩
    exact le_trans (by decide) (le_daysIn _ _)

def next (d : Date) : Date :=
  if h : d.day < daysIn d.year d.month then
    ⟨d.year, d.month, d.day + 1, d.valid.1, by omega, h⟩
  else first d.year d.month

def prev (d : Date) : Date :=
  if h : 1 < d.day then
    ⟨d.year, d.month, d.day - 1, d.valid.1, by omega, by have := d.valid.2.2; omega⟩
  else
    let m := first d.year (d.month - 2)
    ⟨m.year, m.month, daysIn m.year m.month, m.valid.1, le_trans (by decide) (le_daysIn _ _), le_rfl⟩

/-- The day that is `day - 1` days behind the first of a month. -/
def ofFields (year month₀ day : ℤ) : Date :=
  if 1 ≤ day then next^[(day - 1).toNat] (first year month₀)
  else prev^[(1 - day).toNat] (first year month₀)

theorem first_eq (year : ℤ) {month : ℕ} (h : 1 ≤ month ∧ month ≤ 12) :
    first year ((month : ℤ) - 1) =
      ⟨year, month, 1, h, le_rfl, le_trans (by decide) (le_daysIn _ _)⟩ := by
  ext
  · show year + ((month : ℤ) - 1) / 12 = year
    omega
  · show (((month : ℤ) - 1) % 12).toNat + 1 = month
    omega
  · rfl

theorem iterate_next {year : ℤ} {month : ℕ} (k : ℕ) (h : ValidDate year month (k + 1)) :
    next^[k] (first year ((month : ℤ) - 1)) = ⟨year, month, k + 1, h⟩ := by
  induction k with
  | zero => exact first_eq year h.1
  | succ k ih =>
    have hk : ValidDate year month (k + 1) := ⟨h.1, by omega, le_trans (Nat.le_succ _) h.2.2⟩
    have hlt : k + 1 < daysIn year month := h.2.2
    rw [Function.iterate_succ_apply', ih hk, next]
    exact dif_pos hlt

/-- Fields in range are left alone. -/
theorem ofFields_of_valid {year : ℤ} {month day : ℕ} (h : ValidDate year month day) :
    ofFields year ((month : ℤ) - 1) day = ⟨year, month, day, h⟩ := by
  obtain ⟨k, rfl⟩ : ∃ k, day = k + 1 := ⟨day - 1, by have := h.2.1; omega⟩
  have hk : (((k + 1 : ℕ) : ℤ) - 1).toNat = k := by omega
  rw [ofFields, if_pos (by omega), hk]
  exact iterate_next k h

/-- The 29th of February in a year that has none. -/
theorem ofFields_overflow {year : ℤ} {month day : ℕ} (hm : 1 ≤ month ∧ month < 12)
    (hd : day = daysIn year month + 1) :
    (ofFields year ((month : ℤ) - 1) day).month = month + 1 := by
  have hpos := le_daysIn year month
  have hlast : ValidDate year month (daysIn year month - 1 + 1) :=
    ⟨⟨hm.1, hm.2.le⟩, by omega, by omega⟩
  have hk : ((day : ℤ) - 1).toNat = (daysIn year month - 1) + 1 := by omega
  have hend : ¬ daysIn year month - 1 + 1 < daysIn year month := by omega
  rw [ofFields, if_pos (by omega), hk, Function.iterate_succ_apply', iterate_next _ hlast, next,
    dif_neg hend]
  show ((month : ℤ) % 12).toNat + 1 = month + 1
  omega

end Date

/-! ### Times -/

/-- The fields of a time of day are in range. -/
def ValidClock (hour min sec nsec : ℕ) : Prop :=
  hour < 24 ∧ min < 60 ∧ sec < 60 ∧ nsec < 10 ^ 9

instance (hour min sec nsec : ℕ) : Decidable (ValidClock hour min sec nsec) :=
  inferInstanceAs (Decidable (_ ∧ _))

/-- A day and a time of day, and the offset from UTC in seconds. -/
@[ext] structure Time where
  date : Date
  hour : ℕ
  min : ℕ
  sec : ℕ
  nsec : ℕ
  offset : ℤ
  valid : ValidClock hour min sec nsec
deriving DecidableEq

namespace Time

/-- The UTC time that fields in any range normalise to. -/
def ofFields (year month₀ day hour min sec nsec : ℤ) : Time :=
  let s := sec + nsec / 10 ^ 9
  let m := min + s / 60
  let h := hour + m / 60
  ⟨.ofFields year month₀ (day + h / 24), (h % 24).toNat, (m % 60).toNat, (s % 60).toNat,
    (nsec % 10 ^ 9).toNat, 0, by omega, by omega, by omega, by omega⟩

theorem ofFields_of_valid {hour min sec nsec : ℕ} (year month₀ day : ℤ)
    (h : ValidClock hour min sec nsec) :
    ofFields year month₀ day hour min sec nsec =
      ⟨.ofFields year month₀ day, hour, min, sec, nsec, 0, h⟩ := by
  obtain ⟨hhour, hmin, hsec, hnsec⟩ := id h
  have hs : (sec : ℤ) + (nsec : ℤ) / 10 ^ 9 = sec := by omega
  have hm : (min : ℤ) + (sec : ℤ) / 60 = min := by omega
  have hh : (hour : ℤ) + (min : ℤ) / 60 = hour := by omega
  have hd : day + (hour : ℤ) / 24 = day := by omega
  simp only [ofFields, hs, hm, hh, hd, Time.mk.injEq, true_and, and_true]
  omega

end Time

end Calendar
