import SocketPro.Go.Time
import SocketPro.Text.DateTimes

/-!
# Dates between Go and C++

What `Set` of `definebase.h` packs, read by `LoadDate` and written again by `SaveDate`. The two
languages agree on every field of a date and time. But `Set` also packs a time of day without a date,
by the day 0, and days that its month does not have; `time.Date` takes these for other days.
-/

namespace SocketPro.Go

open Calendar Buffer
open Text (Tm set word)

/-- The fields are no wider than they are packed. -/
theorem ofValue_word {u : UDateTime} (hns : u.Ns100 < 2 ^ 24) (hsecond : u.Second < 2 ^ 6)
    (hminute : u.Minute < 2 ^ 6) (hhour : u.Hour < 2 ^ 5) (hday : u.Day < 2 ^ 5)
    (hmonth : u.Month < 2 ^ 4) (hyear : u.Year < 2 ^ 13) (hneg : u.Neg < 2) :
    word u < 2 ^ 64 ∧ UDateTime.ofValue (word u) = u := by
  obtain ⟨Ns100, Second, Minute, Hour, Day, Month, Year, Neg⟩ := u
  simp only at *
  simp only [word, UDateTime.ofValue, UDateTime.mk.injEq]
  omega

theorem bitField_lt (width : ℕ) (x : ℤ) : Text.bitField width x < 2 ^ width := by
  have hpos : (0 : ℤ) < 2 ^ width := by positivity
  have hlt := Int.emod_lt_of_pos x hpos
  rw [Text.bitField, Int.toNat_lt (Int.emod_nonneg _ hpos.ne')]
  exact_mod_cast hlt

/-- What `Set` packs. -/
theorem ofValue_word_set (dt : Tm) (ns : ℕ) :
    word (set dt ns) < 2 ^ 64 ∧ UDateTime.ofValue (word (set dt ns)) = set dt ns := by
  apply ofValue_word
  all_goals simp only [Text.set]
  · exact bitField_lt 24 _
  · exact bitField_lt 6 _
  · exact bitField_lt 6 _
  · exact bitField_lt 5 _
  · split
    · exact bitField_lt 5 _
    · decide
  · split
    · exact bitField_lt 4 _
    · decide
  · split
    · exact bitField_lt 13 _
    · decide
  · split
    · split <;> decide
    · decide

/-- **The two languages agree on a word and on a time.** The word is written again, and the time is
read back in whole 100 nanoseconds. -/
def AgreeOn (w : ℕ) (t : Time) : Prop := toUTime (loadDate w) = w ∧ loadDate (toUTime t) = truncate t

/-- **When they agree.** On every UTC time whose year fits, and on every word that `Set` packs of a
date and time. -/
theorem agreeOn_iff (dt : Tm) (ns : ℕ) {t : Time} (hutc : t.offset = 0)
    (hyear : YearFits t.date.year) :
    AgreeOn (word (set dt ns)) t ↔
      (set dt ns).Valid ∧ ((set dt ns).Neg ≠ 0 → (set dt ns).Year ≠ 0) := by
  obtain ⟨hlt, hfields⟩ := ofValue_word_set dt ns
  rw [AgreeOn, and_iff_left ((loadDate_toUTime_iff t).2 ⟨hutc, hyear⟩), toUTime_loadDate_iff hlt,
    hfields]

/-- The last 100 nanoseconds of the year 1899. -/
def endOf1899 : Time where
  date := ⟨1899, 12, 31, by decide⟩
  hour := 23
  min := 59
  sec := 59
  nsec := 999999900
  offset := 0
  valid := by decide

/-- They agree on the last moment of the year 1899. -/
theorem agreeOn_endOf1899 : AgreeOn (word (set ⟨59, 59, 23, 31, 11, -1⟩ 999999999)) endOf1899 :=
  (agreeOn_iff ⟨59, 59, 23, 31, 11, -1⟩ 999999999 rfl (by decide)).2 (by decide)

/-- **A time of day becomes the last day of the year 1899.** -/
theorem not_agreeOn_noon :
    Text.Asserted ⟨0, 0, 12, 0, 0, 0⟩ 0 ∧
      (loadDate (word (set ⟨0, 0, 12, 0, 0, 0⟩ 0))).date = endOf1899.date ∧
      ¬ ∀ (dt : Tm) (ns : ℕ) (t : Time), Text.Asserted dt ns → t.offset = 0 → YearFits t.date.year →
        AgreeOn (word (set dt ns)) t := by
  have hasserted : Text.Asserted ⟨0, 0, 12, 0, 0, 0⟩ 0 :=
    ⟨by decide, by decide, by decide, by decide, fun h ↦ absurd rfl h⟩
  refine ⟨hasserted, by decide +kernel, fun hall ↦ ?_⟩
  have hword := (hall _ _ endOf1899 hasserted rfl (by decide)).1
  exact absurd hword (by decide +kernel)

end SocketPro.Go
