import SocketPro.Foundation.Calendar

/-!
# Packed dates

`UDateTime` of `definebase.h`: a date and time in the bit fields of a 64-bit word. `time?` is the
time that a word stands for by `GetCTime`, if its fields are those of one; a word with `Day` 0 is a
time of day only, and stands for none.
-/

namespace SocketPro.Buffer

open Calendar

structure UDateTime where
  Ns100 : ℕ
  Second : ℕ
  Minute : ℕ
  Hour : ℕ
  Day : ℕ
  /-- 0 to 11. -/
  Month : ℕ
  Year : ℕ
  /-- 1 before the year 1900. -/
  Neg : ℕ
deriving DecidableEq, Repr

namespace UDateTime

/-- The fields of a word. -/
def ofValue (t : ℕ) : UDateTime where
  Ns100 := t % 2 ^ 24
  Second := t / 2 ^ 24 % 2 ^ 6
  Minute := t / 2 ^ 30 % 2 ^ 6
  Hour := t / 2 ^ 36 % 2 ^ 5
  Day := t / 2 ^ 41 % 2 ^ 5
  Month := t / 2 ^ 46 % 2 ^ 4
  Year := t / 2 ^ 50 % 2 ^ 13
  Neg := t / 2 ^ 63 % 2

variable (u : UDateTime)

/-- `tm_year` of `GetCTime`, counted from the year 0. -/
def year : ℤ := if u.Neg ≠ 0 then 1900 - u.Year else 1900 + u.Year

/-- The fields are those of a date and time. -/
def Valid : Prop :=
  ValidDate u.year (u.Month + 1) u.Day ∧ ValidClock u.Hour u.Minute u.Second (u.Ns100 * 100)

instance : Decidable u.Valid := inferInstanceAs (Decidable (_ ∧ _))

/-- The time that the fields stand for. -/
def time? : Option Time :=
  if h : u.Valid then
    some ⟨⟨u.year, u.Month + 1, u.Day, h.1⟩, u.Hour, u.Minute, u.Second, u.Ns100 * 100, 0, h.2⟩
  else none

theorem isSome_time? : u.time?.isSome ↔ u.Valid := by
  rw [time?]
  split
  · next h => exact iff_of_true rfl h
  · next h => exact iff_of_false Bool.false_ne_true h

end UDateTime

end SocketPro.Buffer
