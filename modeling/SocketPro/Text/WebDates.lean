import SocketPro.Text.DateTimes

/-!
# Dates and times on the web

`ToWebString` of `UDateTime`, against a grammar of its own: a date of the calendar, or a time of day
with an optional date before a `T` and an optional fraction of three digits, and a `Z` at the end.

**Rounding without a carry.** The fraction is rounded to milliseconds by itself, so the last half
millisecond of a second is printed with the four digits `1000`. The date is printed alone as soon as
nothing is left of the time, also when there is no date: midnight as a time of day is the day 0 of
January 1900.

Everything else is as it should be (`webString_wellFormed_iff`): what is printed for a date of the
calendar denotes that date and a time of day that is half a millisecond off at most.
-/

namespace SocketPro.Text

open SocketPro.Json (code isDigit)
open SocketPro.Buffer (UDateTime)
open Calendar (Date ValidDate)

/-! ### Writing -/

/-- `(Ns100 + 5000) / 10000`. -/
def milliseconds (u : UDateTime) : ℕ := (u.Ns100 + 5000) / 10000

/-- `ToWebString`. -/
def toWebString (u : UDateTime) : List ℕ :=
  let tm := getCTime u
  let ms := milliseconds u
  if ms ≠ 0 then
    if tm.mday ≠ 0 then
      dateText tm ++ code 'T' :: (clockText tm ++ (code '.' :: padZero 3 ms ++ [code 'Z']))
    else clockText tm ++ (code '.' :: padZero 3 ms ++ [code 'Z'])
  else if tm.hour ≠ 0 ∨ tm.min ≠ 0 ∨ tm.sec ≠ 0 then
    if tm.mday ≠ 0 then dateText tm ++ code 'T' :: (clockText tm ++ [code 'Z'])
    else clockText tm ++ [code 'Z']
  else dateText tm ++ [code 'Z']

/-! ### The grammar -/

/-- `k` digits and the number they denote. -/
def Digits (k : ℕ) (s : List ℕ) (n : ℕ) : Prop :=
  s.length = k ∧ (∀ c ∈ s, isDigit c = true) ∧ value s = n

/-- At least four characters, the first of them a minus before the year 0. -/
def YearText (s : List ℕ) (y : ℤ) : Prop :=
  4 ≤ s.length ∧
    ((∀ c ∈ s, isDigit c = true) ∧ y = value s ∨
      ∃ ds, s = code '-' :: ds ∧ (∀ c ∈ ds, isDigit c = true) ∧ y = -(value ds : ℤ))

/-- `YYYY-MM-DD`. -/
def DateText (s : List ℕ) (year : ℤ) (month day : ℕ) : Prop :=
  ∃ ys ms ds, s = ys ++ code '-' :: (ms ++ code '-' :: ds) ∧ YearText ys year ∧ Digits 2 ms month ∧
    Digits 2 ds day

/-- `HH:MM:SS`. -/
def ClockText (s : List ℕ) (hour min sec : ℕ) : Prop :=
  ∃ hs ms ss, s = hs ++ code ':' :: (ms ++ code ':' :: ss) ∧ Digits 2 hs hour ∧ Digits 2 ms min ∧
    Digits 2 ss sec

/-- Nothing, or a point and exactly three digits. -/
def FractionText (s : List ℕ) (ms : ℕ) : Prop :=
  s = [] ∧ ms = 0 ∨ ∃ ds, s = code '.' :: ds ∧ Digits 3 ds ms

/-- Nothing, or a date of the calendar and a `T`. -/
def DatePart (s : List ℕ) : Option Date → Prop
  | none => s = []
  | some d => ∃ ds, s = ds ++ [code 'T'] ∧ DateText ds d.year d.month d.day

/-- What a text denotes: a time of day, of a date or of any. -/
structure WebTime where
  date : Option Date
  hour : ℕ
  min : ℕ
  sec : ℕ
  ms : ℕ

/-- **The grammar**: a date of the calendar, or `[date 'T'] HH:MM:SS['.' three digits]`, with a `Z`
at the end. -/
inductive Denotes : List ℕ → WebTime → Prop where
  | date {s : List ℕ} {d : Date} (hd : DateText s d.year d.month d.day) :
    Denotes (s ++ [code 'Z']) ⟨some d, 0, 0, 0, 0⟩
  | time {p c f : List ℕ} {date : Option Date} {hour min sec ms : ℕ} (hp : DatePart p date)
    (hc : ClockText c hour min sec) (hf : FractionText f ms)
    (hclock : hour < 24 ∧ min < 60 ∧ sec < 60) :
    Denotes (p ++ (c ++ (f ++ [code 'Z']))) ⟨date, hour, min, sec, ms⟩

/-- The date that is stored, if one is. -/
def storedDate (u : UDateTime) : Option (ℤ × ℕ × ℕ) :=
  if u.Day = 0 then none else some (u.year, u.Month + 1, u.Day)

/-- The text denotes the stored date and a time of day that differs from the stored one by at most
half a millisecond, counted in 100 nanoseconds. -/
def Close (u : UDateTime) (t : WebTime) : Prop :=
  t.date.map (fun d ↦ (d.year, d.month, d.day)) = storedDate u ∧
    |(((t.hour * 60 + t.min) * 60 + t.sec) * 10 ^ 7 + t.ms * 10 ^ 4 : ℤ) -
      (((u.Hour * 60 + u.Minute) * 60 + u.Second) * 10 ^ 7 + u.Ns100)| ≤ 5000

/-- **The text is well formed**, and all it denotes is close to what is stored. -/
def WellFormed (u : UDateTime) : Prop :=
  (∃ t, Denotes (toWebString u) t) ∧ ∀ t, Denotes (toWebString u) t → Close u t

/-! ### One reading for each text -/

theorem Digits.unique {k n n' : ℕ} {s : List ℕ} (h : Digits k s n) (h' : Digits k s n') : n = n' :=
  h.2.2.symm.trans h'.2.2

theorem YearText.unique {s : List ℕ} {y y' : ℤ} (h : YearText s y) (h' : YearText s y') :
    y = y' := by
  have hminus {ds : List ℕ} (hds : ∀ c ∈ code '-' :: ds, isDigit c = true) : False :=
    absurd (hds _ List.mem_cons_self) (by decide)
  obtain ⟨-, ⟨hds, rfl⟩ | ⟨ds, rfl, hds, rfl⟩⟩ := h
  · obtain ⟨-, ⟨-, rfl⟩ | ⟨ds', rfl, -, -⟩⟩ := h'
    · rfl
    · exact absurd hds hminus
  · obtain ⟨-, ⟨hds', -⟩ | ⟨ds', hcons, -, rfl⟩⟩ := h'
    · exact absurd hds' hminus
    · rw [(List.cons.inj hcons).2]

/-- The month and the day take two characters each, so the year is what is left. -/
theorem DateText.unique {s : List ℕ} {y y' : ℤ} {m m' d d' : ℕ} (h : DateText s y m d)
    (h' : DateText s y' m' d') : y = y' ∧ m = m' ∧ d = d' := by
  obtain ⟨ys, ms, ds, rfl, hy, hm, hd⟩ := h
  obtain ⟨ys', ms', ds', heq, hy', hm', hd'⟩ := h'
  obtain ⟨rfl, htail⟩ := List.append_inj' heq (by
    rw [List.length_cons, List.length_append, List.length_cons, List.length_cons,
      List.length_append, List.length_cons, hm.1, hm'.1, hd.1, hd'.1])
  obtain ⟨rfl, hlast⟩ := List.append_inj (List.cons.inj htail).2 (hm.1.trans hm'.1.symm)
  obtain rfl := (List.cons.inj hlast).2
  exact ⟨hy.unique hy', hm.unique hm', hd.unique hd'⟩

theorem ClockText.length {s : List ℕ} {h m sec : ℕ} (hs : ClockText s h m sec) : s.length = 8 := by
  obtain ⟨hs, ms, ss, rfl, hh, hm, hsec⟩ := hs
  simp [hh.1, hm.1, hsec.1]

theorem ClockText.unique {s : List ℕ} {h h' m m' sec sec' : ℕ} (hs : ClockText s h m sec)
    (hs' : ClockText s h' m' sec') : h = h' ∧ m = m' ∧ sec = sec' := by
  obtain ⟨hs, ms, ss, rfl, hh, hm, hsec⟩ := hs
  obtain ⟨hs', ms', ss', heq, hh', hm', hsec'⟩ := hs'
  obtain ⟨rfl, htail⟩ := List.append_inj heq (hh.1.trans hh'.1.symm)
  obtain ⟨rfl, hlast⟩ := List.append_inj (List.cons.inj htail).2 (hm.1.trans hm'.1.symm)
  obtain rfl := (List.cons.inj hlast).2
  exact ⟨hh.unique hh', hm.unique hm', hsec.unique hsec'⟩

theorem Digits.notMem {k n c : ℕ} {s : List ℕ} (h : Digits k s n) (hc : isDigit c = false) :
    c ∉ s := fun hmem ↦ absurd (hc.symm.trans (h.2.1 c hmem)) (by decide)

/-- A date is made of digits and minus signs. -/
theorem DateText.notMem {s : List ℕ} {y : ℤ} {m d c : ℕ} (h : DateText s y m d)
    (hc : isDigit c = false) (hminus : c ≠ code '-') : c ∉ s := by
  obtain ⟨ys, ms, ds, rfl, ⟨-, hy⟩, hm, hd⟩ := h
  have hys : c ∉ ys := by
    intro hmem
    rcases hy with ⟨hys, -⟩ | ⟨es, rfl, hes, -⟩
    · exact absurd (hc.symm.trans (hys c hmem)) (by decide)
    · rcases List.mem_cons.1 hmem with rfl | hmem
      · exact hminus rfl
      · exact absurd (hc.symm.trans (hes c hmem)) (by decide)
  simp [hys, hminus, hm.notMem hc, hd.notMem hc]

/-- A time of day is made of digits and colons. -/
theorem ClockText.notMem {s : List ℕ} {h m sec c : ℕ} (hs : ClockText s h m sec)
    (hc : isDigit c = false) (hcolon : c ≠ code ':') : c ∉ s := by
  obtain ⟨hs, ms, ss, rfl, hh, hm, hsec⟩ := hs
  simp [hcolon, hh.notMem hc, hm.notMem hc, hsec.notMem hc]

theorem ClockText.colon_mem {s : List ℕ} {h m sec : ℕ} (hs : ClockText s h m sec) :
    code ':' ∈ s := by
  obtain ⟨hs, ms, ss, rfl, -⟩ := hs
  simp

theorem FractionText.notMem_T {s : List ℕ} {ms : ℕ} (h : FractionText s ms) : code 'T' ∉ s := by
  obtain ⟨rfl, -⟩ | ⟨ds, rfl, hds⟩ := h
  · exact List.not_mem_nil
  · have hne : code 'T' ≠ code '.' := by decide
    simp [hne, hds.notMem (show isDigit (code 'T') = false by decide)]

/-! ### What a text of a shape denotes -/

theorem Z_ne_colon : code ':' ≠ code 'Z' := by decide

/-- A text without a colon is a date. -/
theorem Denotes.of_no_colon {s : List ℕ} {t : WebTime} (hs : code ':' ∉ s)
    (h : Denotes (s ++ [code 'Z']) t) :
    ∃ d : Date, DateText s d.year d.month d.day ∧ t = ⟨some d, 0, 0, 0, 0⟩ := by
  generalize hw : s ++ [code 'Z'] = w at h
  cases h with
  | @date s' d hd =>
    obtain rfl := List.append_cancel_right hw
    exact ⟨d, hd, rfl⟩
  | @time p c f date hour min sec ms hp hc hf hclock =>
    have hcolon : code ':' ∈ s ++ [code 'Z'] := by
      rw [hw]
      exact List.mem_append_right _ (List.mem_append_left _ hc.colon_mem)
    rcases List.mem_append.1 hcolon with hmem | hmem
    · exact absurd hmem hs
    · exact absurd (List.mem_singleton.1 hmem) Z_ne_colon

/-- The parts of a text with a time of day are the parts of what it denotes. -/
theorem Denotes.of_clock {p c f : List ℕ} {t : WebTime}
    (hp : p = [] ∨ ∃ ds, p = ds ++ [code 'T'] ∧ code 'T' ∉ ds) (hlength : c.length = 8)
    (hcolon : code ':' ∈ c) (hc : code 'T' ∉ c) (hf : code 'T' ∉ f)
    (h : Denotes (p ++ (c ++ (f ++ [code 'Z']))) t) :
    DatePart p t.date ∧ ClockText c t.hour t.min t.sec ∧ FractionText f t.ms ∧
      t.hour < 24 ∧ t.min < 60 ∧ t.sec < 60 := by
  have hZ : code 'T' ≠ code 'Z' := by decide
  generalize hw : p ++ (c ++ (f ++ [code 'Z'])) = w at h
  cases h with
  | @date s d hd =>
    have hsame : s ++ [code 'Z'] = (p ++ (c ++ f)) ++ [code 'Z'] := by
      rw [← hw]
      simp
    have hs : s = p ++ (c ++ f) := List.append_cancel_right hsame
    exact absurd (hs ▸ List.mem_append_right _ (List.mem_append_left _ hcolon))
      (hd.notMem (by decide) (by decide))
  | @time p' c' f' date hour min sec ms hp' hc' hf' hclock =>
    have hT : code 'T' ∉ c ++ (f ++ [code 'Z']) := by simp [hc, hf, hZ]
    have hT' : code 'T' ∉ c' ++ (f' ++ [code 'Z']) := by
      simp [hc'.notMem (show isDigit (code 'T') = false by decide) (by decide), hf'.notMem_T, hZ]
    -- there is a `T` on one side exactly if there is one on the other
    have hparts : p = p' ∧ c ++ (f ++ [code 'Z']) = c' ++ (f' ++ [code 'Z']) := by
      obtain rfl | ⟨ds, rfl, hds⟩ := hp
      · cases date with
        | none =>
          obtain rfl := hp'
          exact ⟨rfl, hw⟩
        | some d =>
          obtain ⟨ds', rfl, -⟩ := hp'
          refine absurd ?_ hT
          rw [List.nil_append] at hw
          rw [hw]
          simp
      · cases date with
        | none =>
          obtain rfl := hp'
          refine absurd ?_ hT'
          rw [List.nil_append] at hw
          rw [← hw]
          simp
        | some d =>
          obtain ⟨ds', rfl, -⟩ := hp'
          rw [List.append_assoc, List.append_assoc, List.singleton_append,
            List.singleton_append] at hw
          obtain ⟨rfl, -, htail⟩ := (List.append_cons_inj_of_notMem hds hT).1 hw
          exact ⟨rfl, htail⟩
    obtain ⟨rfl, htail⟩ := hparts
    obtain ⟨rfl, hrest⟩ := List.append_inj htail (hlength.trans hc'.length.symm)
    obtain rfl := List.append_cancel_right hrest
    exact ⟨hp', hc', hf', hclock⟩

/-! ### What is printed -/

/-- A number with no more digits than places is printed with exactly as many. -/
theorem digits_padZero {k n : ℕ} (hk : 0 < k) (hn : n < 10 ^ k) : Digits k (padZero k n) n := by
  refine ⟨length_padZero hk hn, ?_, ?_⟩
  · rw [padZero, if_neg (by omega)]
    exact fun d hd ↦ isDigit_of_mem_zeros_numeral hd
  · rw [padZero, if_neg (by omega), value_zeros_append, value_numeral, Int.natAbs_natCast]

theorem yearText_padZero (y : ℤ) : YearText (padZero 4 y) y := by
  rw [padZero]
  split
  · refine ⟨?_, .inr ⟨_, rfl, fun c hc ↦ isDigit_of_mem_zeros_numeral hc, ?_⟩⟩
    · rw [List.length_cons, List.length_append, List.length_replicate]
      omega
    · rw [value_zeros_append, value_numeral]
      omega
  · refine ⟨?_, .inl ⟨fun c hc ↦ isDigit_of_mem_zeros_numeral hc, ?_⟩⟩
    · rw [List.length_append, List.length_replicate]
      omega
    · rw [value_zeros_append, value_numeral]
      omega

variable {u : UDateTime}

theorem dateText_reads (hu : InRange u) :
    DateText (dateText (getCTime u)) u.year (u.Month + 1) u.Day := by
  have hmonth := hu.month
  have hday := hu.day
  have hyear : (getCTime u).year + 1900 = u.year := by
    simp only [getCTime, UDateTime.year]
    split <;> omega
  refine ⟨_, _, _, rfl, hyear ▸ yearText_padZero _, ?_, ?_⟩
  · exact digits_padZero (k := 2) (n := u.Month + 1) (by decide) (by omega)
  · exact digits_padZero (k := 2) (n := u.Day) (by decide) (by omega)

theorem clockText_reads (hu : InRange u) :
    ClockText (clockText (getCTime u)) u.Hour u.Minute u.Second := by
  have hhour := hu.hour
  have hminute := hu.minute
  have hsecond := hu.second
  refine ⟨_, _, _, rfl, ?_, ?_, ?_⟩
  · exact digits_padZero (k := 2) (n := u.Hour) (by decide) (by omega)
  · exact digits_padZero (k := 2) (n := u.Minute) (by decide) (by omega)
  · exact digits_padZero (k := 2) (n := u.Second) (by decide) (by omega)

/-- The milliseconds as far as they are printed. -/
def msText (u : UDateTime) : List ℕ :=
  if milliseconds u ≠ 0 then code '.' :: padZero 3 (milliseconds u) else []

/-- The five shapes are three with an optional fraction. -/
theorem toWebString_eq (u : UDateTime) :
    toWebString u =
      if milliseconds u = 0 ∧ u.Hour = 0 ∧ u.Minute = 0 ∧ u.Second = 0 then
        dateText (getCTime u) ++ [code 'Z']
      else (if u.Day = 0 then [] else dateText (getCTime u) ++ [code 'T']) ++
        (clockText (getCTime u) ++ (msText u ++ [code 'Z'])) := by
  have hmday : (getCTime u).mday ≠ 0 ↔ ¬ u.Day = 0 := by simp [getCTime]
  have htime : ((getCTime u).hour ≠ 0 ∨ (getCTime u).min ≠ 0 ∨ (getCTime u).sec ≠ 0) ↔
      ¬ (u.Hour = 0 ∧ u.Minute = 0 ∧ u.Second = 0) := by
    simp only [getCTime]
    omega
  rw [toWebString]
  simp only [hmday, htime, msText]
  by_cases hms : milliseconds u = 0
  · simp only [hms, ne_eq, not_true_eq_false, if_false, true_and, List.nil_append, ite_not]
    split
    · rfl
    · split <;> simp
  · simp only [hms, ne_eq, not_false_eq_true, if_true, false_and, if_false, ite_not]
    split <;> simp

/-- The milliseconds have three digits unless they are rounded up to a second. -/
theorem fractionText_msText_iff (hu : InRange u) (ms : ℕ) :
    FractionText (msText u) ms ↔ ms = milliseconds u ∧ milliseconds u < 1000 := by
  have hle : milliseconds u ≤ 1000 := by
    have := hu.ns100
    rw [milliseconds]
    omega
  rw [msText]
  by_cases hzero : milliseconds u = 0
  · rw [if_neg (by simp [hzero]), hzero]
    constructor
    · rintro (⟨-, rfl⟩ | ⟨ds, hds, -⟩)
      · exact ⟨rfl, by decide⟩
      · exact absurd hds (List.cons_ne_nil _ _).symm
    · rintro ⟨rfl, -⟩
      exact .inl ⟨rfl, rfl⟩
  · rw [if_pos hzero]
    constructor
    · rintro (⟨hds, -⟩ | ⟨ds, hds, hdigits⟩)
      · exact absurd hds (List.cons_ne_nil _ _)
      · obtain rfl := (List.cons.inj hds).2
        have hlt : milliseconds u < 1000 := by
          refine lt_of_le_of_ne hle fun heq ↦ ?_
          have hlength := hdigits.1
          rw [heq] at hlength
          exact absurd hlength (by simp [padZero, numeral, Json.decimal])
        exact ⟨hdigits.unique (digits_padZero (by decide) hlt), hlt⟩
    · rintro ⟨rfl, hlt⟩
      exact .inr ⟨_, rfl, digits_padZero (by decide) hlt⟩

/-- Rounding to milliseconds is half a millisecond off at most. -/
theorem abs_milliseconds_sub_le (u : UDateTime) :
    |((milliseconds u : ℤ) * 10 ^ 4) - u.Ns100| ≤ 5000 := by
  rw [abs_le, milliseconds]
  omega

/-- **When the text is as it should be**: the fraction rounds to less than a second, a date that is
stored is one of the calendar, and a time without a date does not round to midnight. -/
def Printable (u : UDateTime) : Prop :=
  u.Ns100 < 9995000 ∧
    if u.Day = 0 then ¬ (u.Ns100 < 5000 ∧ u.Hour = 0 ∧ u.Minute = 0 ∧ u.Second = 0)
    else ValidDate u.year (u.Month + 1) u.Day

instance (u : UDateTime) : Decidable (Printable u) := by
  unfold Printable
  infer_instance

/-- The date alone. -/
theorem wellFormed_of_midnight (hu : InRange u)
    (hzero : milliseconds u = 0 ∧ u.Hour = 0 ∧ u.Minute = 0 ∧ u.Second = 0) :
    WellFormed u ↔ u.Day ≠ 0 ∧ ValidDate u.year (u.Month + 1) u.Day := by
  obtain ⟨hms, hhour, hminute, hsecond⟩ := id hzero
  have hreads := dateText_reads hu
  rw [WellFormed, toWebString_eq, if_pos hzero]
  constructor
  · rintro ⟨⟨t, ht⟩, -⟩
    obtain ⟨d, hd, -⟩ := ht.of_no_colon (colon_notMem_dateText _)
    obtain ⟨hyear, hmonth, hday⟩ := hd.unique hreads
    have hvalid := d.valid
    rw [hyear, hmonth, hday] at hvalid
    exact ⟨Nat.one_le_iff_ne_zero.1 hvalid.2.1, hvalid⟩
  · rintro ⟨hday, hvalid⟩
    refine ⟨⟨_, .date (d := ⟨u.year, u.Month + 1, u.Day, hvalid⟩) hreads⟩, fun t ht ↦ ?_⟩
    obtain ⟨d, hd, rfl⟩ := ht.of_no_colon (colon_notMem_dateText _)
    obtain ⟨hyear, hmonth, hday'⟩ := hd.unique hreads
    have hclose := abs_milliseconds_sub_le u
    rw [hms] at hclose
    refine ⟨?_, ?_⟩
    · simp [storedDate, hday, hyear, hmonth, hday']
    · simpa [hhour, hminute, hsecond] using hclose

/-- The time of day, with the date before it if there is one. -/
theorem wellFormed_of_clock (hu : InRange u)
    (hclock : ¬ (milliseconds u = 0 ∧ u.Hour = 0 ∧ u.Minute = 0 ∧ u.Second = 0)) :
    WellFormed u ↔
      milliseconds u < 1000 ∧ (u.Day ≠ 0 → ValidDate u.year (u.Month + 1) u.Day) := by
  have hreads := dateText_reads hu
  have hclockReads := clockText_reads hu
  have hT : isDigit (code 'T') = false := by decide
  have hfraction : code 'T' ∉ msText u := by
    have hpad : code 'T' ∉ padZero 3 (milliseconds u) :=
      notMem_padZero (by decide) hT 3 _
    have hpoint : code 'T' ≠ code '.' := by decide
    rw [msText]
    split <;> simp [hpad, hpoint]
  have hprefix : (if u.Day = 0 then [] else dateText (getCTime u) ++ [code 'T']) = [] ∨
      ∃ ds, (if u.Day = 0 then [] else dateText (getCTime u) ++ [code 'T']) = ds ++ [code 'T'] ∧
        code 'T' ∉ ds := by
    split
    · exact .inl rfl
    · exact .inr ⟨_, rfl, hreads.notMem hT (by decide)⟩
  rw [WellFormed, toWebString_eq, if_neg hclock]
  have hinv {t : WebTime} := Denotes.of_clock (t := t) hprefix hclockReads.length
    hclockReads.colon_mem (hclockReads.notMem hT (by decide)) hfraction
  -- the parts that are printed are those that are read
  have hdate {t : WebTime} (hp : DatePart
      (if u.Day = 0 then [] else dateText (getCTime u) ++ [code 'T']) t.date) :
      t.date.map (fun d ↦ (d.year, d.month, d.day)) = storedDate u ∧
        (u.Day ≠ 0 → ValidDate u.year (u.Month + 1) u.Day) := by
    cases hd : t.date with
    | none =>
      rw [hd] at hp
      have hday : u.Day = 0 := by
        by_contra hne
        rw [if_neg hne] at hp
        exact absurd hp (List.append_ne_nil_of_right_ne_nil _ (List.cons_ne_nil _ _))
      exact ⟨by simp [storedDate, hday], fun hne ↦ absurd hday hne⟩
    | some d =>
      rw [hd] at hp
      obtain ⟨ds, hds, hd'⟩ := hp
      have hday : u.Day ≠ 0 := by
        intro hzero
        rw [if_pos hzero] at hds
        exact absurd hds.symm (List.append_ne_nil_of_right_ne_nil _ (List.cons_ne_nil _ _))
      rw [if_neg hday] at hds
      obtain rfl := List.append_cancel_right hds
      obtain ⟨hyear, hmonth, hday'⟩ := hd'.unique hreads
      have hvalid := d.valid
      rw [hyear, hmonth, hday'] at hvalid
      exact ⟨by simp [storedDate, hday, hyear, hmonth, hday'], fun _ ↦ hvalid⟩
  constructor
  · rintro ⟨⟨t, ht⟩, -⟩
    obtain ⟨hp, -, hf, -⟩ := hinv ht
    exact ⟨((fractionText_msText_iff hu _).1 hf).2, (hdate hp).2⟩
  · rintro ⟨hms, hvalid⟩
    refine ⟨?_, fun t ht ↦ ?_⟩
    · have hf : FractionText (msText u) (milliseconds u) :=
        (fractionText_msText_iff hu _).2 ⟨rfl, hms⟩
      have hranges : u.Hour < 24 ∧ u.Minute < 60 ∧ u.Second < 60 :=
        ⟨hu.hour, hu.minute, hu.second⟩
      by_cases hday : u.Day = 0
      · rw [if_pos hday]
        exact ⟨⟨none, _, _, _, _⟩, .time rfl hclockReads hf hranges⟩
      · rw [if_neg hday]
        have hpart : DatePart (dateText (getCTime u) ++ [code 'T'])
            (some ⟨u.year, u.Month + 1, u.Day, hvalid hday⟩) := ⟨_, rfl, hreads⟩
        exact ⟨_, .time hpart hclockReads hf hranges⟩
    · obtain ⟨hp, hc, hf, -⟩ := hinv ht
      obtain ⟨hh, hm, hs⟩ := hc.unique hclockReads
      have hclose := abs_milliseconds_sub_le u
      refine ⟨(hdate hp).1, ?_⟩
      rw [hh, hm, hs, ((fractionText_msText_iff hu _).1 hf).1, add_sub_add_left_eq_sub]
      exact hclose

/-- **Which times are printed as they should be.** -/
theorem webString_wellFormed_iff {dt : Tm} {ns : ℕ} (h : Asserted dt ns) :
    WellFormed (set dt ns) ↔ Printable (set dt ns) := by
  have hu := inRange_set h
  generalize set dt ns = u at hu ⊢
  have hthousand : milliseconds u < 1000 ↔ u.Ns100 < 9995000 := by
    rw [milliseconds]
    omega
  have hzero : milliseconds u = 0 ↔ u.Ns100 < 5000 := by
    rw [milliseconds]
    omega
  rw [Printable, ← hthousand, ← hzero]
  by_cases hmidnight : milliseconds u = 0 ∧ u.Hour = 0 ∧ u.Minute = 0 ∧ u.Second = 0
  · rw [wellFormed_of_midnight hu hmidnight, hmidnight.1]
    split
    · rename_i hday
      simp [hday, hmidnight]
    · rename_i hday
      simp [hday]
  · rw [wellFormed_of_clock hu hmidnight]
    split
    · rename_i hday
      simp [hday, hmidnight]
    · rename_i hday
      simp [hday]

/-- A leap day of the year 2012, with 123.4567 milliseconds. -/
theorem webString_wellFormed_leap_day : WellFormed (set ⟨30, 15, 10, 29, 1, 112⟩ 123456700) :=
  (@webString_wellFormed_iff ⟨30, 15, 10, 29, 1, 112⟩ 123456700
    ⟨by decide, by decide, by decide, by decide, fun _ ↦ by decide⟩).2 (by decide)

/-- **The last instant of a second is printed with four digits.** -/
theorem webString_four_digits :
    Asserted ⟨59, 59, 23, 23, 11, 112⟩ 999999900 ∧
      toWebString (set ⟨59, 59, 23, 23, 11, 112⟩ 999999900) =
        "2012-12-23T23:59:59.1000Z".toList.map code ∧
      ¬ ∀ (dt : Tm) (ns : ℕ), Asserted dt ns → WellFormed (set dt ns) := by
  have hasserted : Asserted ⟨59, 59, 23, 23, 11, 112⟩ 999999900 :=
    ⟨by decide, by decide, by decide, by decide, fun _ ↦ by decide⟩
  refine ⟨hasserted, ?_, fun hall ↦ ?_⟩
  · rw [set_of_day hasserted (by decide), toWebString_eq, if_neg (by decide), if_neg (by decide)]
    simp [dateText, clockText, padZero, numeral, Json.decimal, getCTime, msText, milliseconds]
    decide
  · have hwell := hall _ _ hasserted
    have hclock := wellFormed_of_clock (inRange_set hasserted) (by decide)
    exact absurd (hclock.1 hwell).1 (by decide)

end SocketPro.Text
