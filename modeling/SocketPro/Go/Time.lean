import SocketPro.Buffer.UDateTime
import Mathlib.Tactic.Ring

/-!
# `time.Time` on the wire

`toUTime` and `LoadDate` of `cuqueue.go`. The writer packs the year, month and so on that the time
has in its own location, and the location is not written; the reader makes a UTC time of the fields,
which `time.Date` normalises.

* `loadDate_eq_time?_iff` — the reader understands a word exactly when its fields are in range;
* `loadDate_toUTime_iff` — it reads back what was written, in whole 100 nanoseconds, exactly when
  the time is in UTC and its year has the 13 bits of the word;
* `toUTime_loadDate_iff` — a word that is read and written again is the same exactly when its fields
  are those of a date and time.
-/

namespace SocketPro.Go

open Calendar Buffer

/-- `toUTime`. -/
def toUTime (t : Time) : ℕ :=
  let mt := if 1900 ≤ t.date.year then (t.date.year - 1900).toNat
    else 2 ^ 13 + (1900 - t.date.year).toNat
  let mt := mt * 2 ^ 4 + (t.date.month - 1)
  let mt := mt * 2 ^ 5 + t.date.day
  let mt := mt * 2 ^ 5 + t.hour
  let mt := mt * 2 ^ 6 + t.min
  let mt := mt * 2 ^ 6 + t.sec
  let mt := mt * 2 ^ 24 + t.nsec / 100
  mt % 2 ^ 64

/-- `LoadDate` behind the reading of the word. -/
def loadDate (mt : ℕ) : Time :=
  let ns100 : ℕ := mt % 2 ^ 24
  let mt : ℕ := mt / 2 ^ 24
  let second : ℕ := mt % 2 ^ 6
  let mt : ℕ := mt / 2 ^ 6
  let minute : ℕ := mt % 2 ^ 6
  let mt : ℕ := mt / 2 ^ 6
  let hour : ℕ := mt % 2 ^ 5
  let mt : ℕ := mt / 2 ^ 5
  let day : ℕ := mt % 2 ^ 5
  let mt : ℕ := mt / 2 ^ 5
  let month : ℕ := mt % 2 ^ 4
  let mt : ℕ := mt / 2 ^ 4
  let year : ℕ := mt % 2 ^ 13
  let neg : ℕ := mt / 2 ^ 13
  let year : ℤ := if 0 < neg then 1900 - year else 1900 + year
  .ofFields year month day hour minute second (ns100 * 100 : ℕ)

/-- Truncated to 100 nanoseconds. -/
def truncate (t : Time) : Time :=
  { t with
    nsec := t.nsec / 100 * 100
    valid := ⟨t.valid.1, t.valid.2.1, t.valid.2.2.1, lt_of_le_of_lt (Nat.div_mul_le_self _ _)
      t.valid.2.2.2⟩ }

/-- The reader goes by the fields of the word. -/
theorem loadDate_eq {w : ℕ} (hw : w < 2 ^ 64) :
    loadDate w = .ofFields (UDateTime.ofValue w).year (UDateTime.ofValue w).Month
      (UDateTime.ofValue w).Day (UDateTime.ofValue w).Hour (UDateTime.ofValue w).Minute
      (UDateTime.ofValue w).Second ((UDateTime.ofValue w).Ns100 * 100 : ℕ) := by
  have hneg : w / 2 ^ 63 % 2 = w / 2 ^ 63 := Nat.mod_eq_of_lt (by omega)
  simp only [loadDate, UDateTime.year, UDateTime.ofValue, Nat.div_div_eq_div_mul, ← pow_add, hneg,
    Nat.pos_iff_ne_zero]

/-- **A word whose fields are in range is understood**, and no other one. -/
theorem loadDate_eq_time?_iff {w : ℕ} (hw : w < 2 ^ 64) :
    (UDateTime.ofValue w).time? = some (loadDate w) ↔ (UDateTime.ofValue w).Valid := by
  constructor
  · intro h
    rw [← UDateTime.isSome_time?, h]
    rfl
  · intro h
    have hdate := Date.ofFields_of_valid h.1
    rw [show (((UDateTime.ofValue w).Month + 1 : ℕ) : ℤ) - 1 = (UDateTime.ofValue w).Month by omega]
      at hdate
    rw [UDateTime.time?, dif_pos h, loadDate_eq hw, Time.ofFields_of_valid _ _ _ h.2, hdate]

/-! ### Round trip -/

/-- The years that fit. -/
def YearFits (year : ℤ) : Prop := 1900 - 8191 ≤ year ∧ year ≤ 1900 + 8191

instance : DecidablePred YearFits := fun _ ↦ inferInstanceAs (Decidable (_ ∧ _))

section

variable (t : Time)

/-- The fields of the word that is written, the year apart. -/
theorem ofValue_toUTime :
    (UDateTime.ofValue (toUTime t)).Month = t.date.month - 1 ∧
    (UDateTime.ofValue (toUTime t)).Day = t.date.day ∧
    (UDateTime.ofValue (toUTime t)).Hour = t.hour ∧
    (UDateTime.ofValue (toUTime t)).Minute = t.min ∧
    (UDateTime.ofValue (toUTime t)).Second = t.sec ∧
    (UDateTime.ofValue (toUTime t)).Ns100 = t.nsec / 100 := by
  obtain ⟨hmonth, hday⟩ := t.date.valid
  obtain ⟨hhour, hmin, hsec, hnsec⟩ := t.valid
  have hday' := daysIn_le t.date.year t.date.month
  simp only [UDateTime.ofValue, toUTime]
  generalize (if 1900 ≤ t.date.year then (t.date.year - 1900).toNat
    else 2 ^ 13 + (1900 - t.date.year).toNat) = y
  omega

theorem year_toUTime (h : YearFits t.date.year) :
    (UDateTime.ofValue (toUTime t)).year = t.date.year := by
  obtain ⟨hmonth, hday⟩ := t.date.valid
  obtain ⟨hhour, hmin, hsec, hnsec⟩ := t.valid
  obtain ⟨hlow, hhigh⟩ := h
  have hday' := daysIn_le t.date.year t.date.month
  simp only [UDateTime.year, UDateTime.ofValue, toUTime]
  split <;> split <;> omega

theorem yearFits_ofValue (w : ℕ) : YearFits (UDateTime.ofValue w).year := by
  have hyear : (UDateTime.ofValue w).Year < 2 ^ 13 := Nat.mod_lt _ (by decide)
  rw [YearFits, UDateTime.year]
  constructor <;> split <;> omega

theorem toUTime_lt : toUTime t < 2 ^ 64 := Nat.mod_lt _ (by decide)

/-- **A time is read back in whole 100 nanoseconds** if it is in UTC and its year fits, and only
then: the day that is read has the year of the word, but for a 29th of February that becomes the 1st
of March. -/
theorem loadDate_toUTime_iff :
    loadDate (toUTime t) = truncate t ↔ t.offset = 0 ∧ YearFits t.date.year := by
  obtain ⟨hM, hD, hH, hm, hs, hns⟩ := ofValue_toUTime t
  obtain ⟨hmonth, hday, hlast⟩ := id t.date.valid
  have hns100 : t.nsec / 100 * 100 < 10 ^ 9 :=
    lt_of_le_of_lt (Nat.div_mul_le_self _ _) t.valid.2.2.2
  have hclock : ValidClock t.hour t.min t.sec (t.nsec / 100 * 100) :=
    ⟨t.valid.1, t.valid.2.1, t.valid.2.2.1, hns100⟩
  have hload := loadDate_eq (toUTime_lt t)
  rw [hM, hD, hH, hm, hs, hns, Time.ofFields_of_valid _ _ _ hclock,
    show ((t.date.month - 1 : ℕ) : ℤ) = (t.date.month : ℤ) - 1 by omega] at hload
  rw [hload]
  constructor
  · intro heq
    refine ⟨(congrArg Time.offset heq).symm, ?_⟩
    have hdate : Date.ofFields (UDateTime.ofValue (toUTime t)).year ((t.date.month : ℤ) - 1)
        t.date.day = t.date := congrArg Time.date heq
    have hfits := yearFits_ofValue (toUTime t)
    by_cases hle : t.date.day ≤ daysIn (UDateTime.ofValue (toUTime t)).year t.date.month
    · rw [Date.ofFields_of_valid ⟨hmonth, hday, hle⟩] at hdate
      rwa [← congrArg Date.year hdate]
    · -- the years agree in all months but February
      have hfeb : t.date.month = 2 := by
        by_contra hne
        refine hle (le_trans hlast (le_of_eq ?_))
        exact daysIn_congr _ _ hne
      have hfebday : t.date.day = daysIn (UDateTime.ofValue (toUTime t)).year t.date.month + 1 := by
        rw [hfeb] at hlast hle ⊢
        have hup := daysIn_february_le t.date.year
        have hdown := le_daysIn (UDateTime.ofValue (toUTime t)).year 2
        omega
      have hmarch := Date.ofFields_overflow ⟨hmonth.1, by omega⟩ hfebday
      rw [hdate] at hmarch
      omega
  · rintro ⟨hutc, hyear⟩
    rw [year_toUTime t hyear, Date.ofFields_of_valid t.date.valid]
    ext <;> simp [truncate, hutc]

end

/-! ### Words that are written again -/

/-- The reader knows no less than 100 nanoseconds. -/
theorem truncate_loadDate {w : ℕ} (hw : w < 2 ^ 64) : truncate (loadDate w) = loadDate w := by
  have hnsec : (loadDate w).nsec = (UDateTime.ofValue w).Ns100 * 100 % 10 ^ 9 := by
    rw [loadDate_eq hw]
    show (((UDateTime.ofValue w).Ns100 * 100 : ℕ) % 10 ^ 9 : ℤ).toNat = _
    omega
  refine Time.ext rfl rfl rfl rfl ?_ rfl
  show (loadDate w).nsec / 100 * 100 = (loadDate w).nsec
  rw [hnsec]
  omega

/-- The sign is set before the year 1900 only. -/
theorem neg_toUTime {t : Time} (h : YearFits t.date.year)
    (hneg : (UDateTime.ofValue (toUTime t)).Neg ≠ 0) : t.date.year < 1900 := by
  obtain ⟨hmonth, hday⟩ := t.date.valid
  obtain ⟨hhour, hmin, hsec, hnsec⟩ := t.valid
  obtain ⟨hlow, hhigh⟩ := h
  have hday' := daysIn_le t.date.year t.date.month
  simp only [UDateTime.ofValue, toUTime] at hneg
  split at hneg <;> omega

/-- The word is written again of the fields. -/
theorem toUTime_of_fields {w : ℕ} (hw : w < 2 ^ 64) {t : Time}
    (hneg : (UDateTime.ofValue w).Neg ≠ 0 → (UDateTime.ofValue w).Year ≠ 0)
    (hyear : t.date.year = (UDateTime.ofValue w).year)
    (hmonth : t.date.month = (UDateTime.ofValue w).Month + 1)
    (hday : t.date.day = (UDateTime.ofValue w).Day) (hhour : t.hour = (UDateTime.ofValue w).Hour)
    (hmin : t.min = (UDateTime.ofValue w).Minute) (hsec : t.sec = (UDateTime.ofValue w).Second)
    (hnsec : t.nsec = (UDateTime.ofValue w).Ns100 * 100) : toUTime t = w := by
  have hbits : (if 1900 ≤ t.date.year then (t.date.year - 1900).toNat
      else 2 ^ 13 + (1900 - t.date.year).toNat) = w / 2 ^ 50 := by
    have hN : (UDateTime.ofValue w).Neg = w / 2 ^ 63 % 2 := rfl
    have hY : (UDateTime.ofValue w).Year = w / 2 ^ 50 % 2 ^ 13 := rfl
    by_cases h : (UDateTime.ofValue w).Neg = 0
    · have hpast : (UDateTime.ofValue w).year = 1900 + (UDateTime.ofValue w).Year :=
        if_neg (not_not.2 h)
      rw [hyear, hpast, if_pos (by omega)]
      omega
    · have hpast : (UDateTime.ofValue w).year = 1900 - (UDateTime.ofValue w).Year := if_pos h
      have hpos := hneg h
      rw [hyear, hpast, if_neg (by omega)]
      omega
  simp only [toUTime, hbits, hmonth, hday, hhour, hmin, hsec, hnsec, UDateTime.ofValue]
  omega

/-- **A word is written again** if its fields are those of a date and time, and only then. The year
1900 has no sign. -/
theorem toUTime_loadDate_iff {w : ℕ} (hw : w < 2 ^ 64) :
    toUTime (loadDate w) = w ↔ (UDateTime.ofValue w).Valid ∧
      ((UDateTime.ofValue w).Neg ≠ 0 → (UDateTime.ofValue w).Year ≠ 0) := by
  constructor
  · intro heq
    have hagain : loadDate (toUTime (loadDate w)) = truncate (loadDate w) := by
      rw [heq, truncate_loadDate hw]
    have hfits := ((loadDate_toUTime_iff _).1 hagain).2
    obtain ⟨hM, hD, hH, hm, hs, hns⟩ := ofValue_toUTime (loadDate w)
    have hY := year_toUTime (loadDate w) hfits
    have hneg := neg_toUTime hfits
    have hdate := (loadDate w).date.valid
    have hclock := (loadDate w).valid
    have hnsec : (loadDate w).nsec / 100 * 100 = (loadDate w).nsec :=
      congrArg Time.nsec (truncate_loadDate hw)
    rw [heq] at hM hD hH hm hs hns hY hneg
    refine ⟨⟨?_, ?_⟩, fun h hzero ↦ ?_⟩
    · have hmonth : (UDateTime.ofValue w).Month + 1 = (loadDate w).date.month := by
        have := hdate.1
        omega
      rw [hY, hmonth, hD]
      exact hdate
    · rw [hH, hm, hs, hns, hnsec]
      exact hclock
    · have hlt := hneg h
      rw [← hY, UDateTime.year, if_pos h, hzero] at hlt
      omega
  · rintro ⟨hvalid, hneg⟩
    have htime := (loadDate_eq_time?_iff hw).2 hvalid
    rw [UDateTime.time?, dif_pos hvalid] at htime
    rw [← Option.some.inj htime]
    exact toUTime_of_fields hw hneg rfl rfl rfl rfl rfl rfl rfl

end SocketPro.Go
