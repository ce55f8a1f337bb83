import SocketPro.CSharp.ByteList
import SocketPro.Go.DateAgreement

/-!
# Dates and times of day in the C# queue

`UDateTime` of `uqueue.cs` packs a `DateTime` or a `TimeSpan` into a word, and `GetDateTime` takes a
word apart, as a `DateTime` or as the time of day of one. Ticks are units of 100 nanoseconds, and the
word has 24 bits for those of a fraction of a second.

A `DateTime` always comes back, with the kind `Local`. A `TimeSpan` is packed from its milliseconds
and the ticks below, and a millisecond is counted as a million of ticks and not as ten thousand; so
it comes back only if it has none (`load_saveTimeSpan_iff`). What `Set` of `definebase.h` packs is
read as the same date and time if it is one of .NET (`reads_set_iff`).
-/

namespace SocketPro.CSharp

open Calendar Machine Bytes Buffer

/-! ### The types of .NET -/

inductive DateTimeKind
  | Unspecified
  | Utc
  | Local
deriving DecidableEq, Repr

abbrev TicksPerSecond : ℕ := 10000000

abbrev TicksPerDay : ℕ := 864000000000

/-- `System.DateTime` -/
@[ext] structure DateTime where
  date : Date
  timeOfDay : ℕ
  kind : DateTimeKind
  year_range : 1 ≤ date.year ∧ date.year ≤ 9999
  timeOfDay_lt : timeOfDay < TicksPerDay
deriving DecidableEq

namespace DateTime

variable (dt : DateTime)

def Hour : ℕ := dt.timeOfDay / 36000000000

def Minute : ℕ := dt.timeOfDay / 600000000 % 60

def Second : ℕ := dt.timeOfDay / TicksPerSecond % 60

/-- The days of a date since the first of January of the year 1. -/
def days (d : Date) : ℤ :=
  let y := d.year - 1
  y * 365 + y / 4 - y / 100 + y / 400 +
    ((List.range (d.month - 1)).map fun m ↦ (daysIn d.year (m + 1) : ℤ)).sum + (d.day - 1)

/-- The ticks since then. -/
def Ticks : ℤ := days dt.date * TicksPerDay + dt.timeOfDay

end DateTime

/-- The time of day in ticks. -/
def clockTicks (hour minute second fraction : ℕ) : ℕ :=
  ((hour * 60 + minute) * 60 + second) * TicksPerSecond + fraction

theorem clockTicks_eq_add (hour minute second fraction : ℕ) :
    clockTicks hour minute second fraction = clockTicks hour minute second 0 + fraction := by
  simp only [clockTicks, Nat.add_zero]

/-- `new DateTime(year, month, day, hour, minute, second, millisecond, kind)`, if the numbers are in
range. -/
def newDateTime (year : ℤ) (month day hour minute second millisecond : ℕ) (kind : DateTimeKind) :
    Option DateTime :=
  if h : ((1 ≤ year ∧ year ≤ 9999) ∧ ValidDate year month day) ∧
      hour < 24 ∧ minute < 60 ∧ second < 60 ∧ millisecond < 1000 then
    some ⟨⟨year, month, day, h.1.2⟩, clockTicks hour minute second (millisecond * 10000), kind,
      h.1.1, by
        obtain ⟨-, hhour, hminute, hsecond, hmillisecond⟩ := h
        simp only [clockTicks, TicksPerSecond, TicksPerDay]
        omega⟩
  else none

/-- `AddTicks(value)`, for a `value` that is not negative. -/
def DateTime.AddTicks (dt : DateTime) (value : ℕ) : Option DateTime :=
  let ticks := dt.timeOfDay + value
  let date := Date.next^[ticks / TicksPerDay] dt.date
  if h : 1 ≤ date.year ∧ date.year ≤ 9999 then
    some ⟨date, ticks % TicksPerDay, dt.kind, h, Nat.mod_lt _ (by decide)⟩
  else none

/-- `System.TimeSpan` -/
structure TimeSpan where
  Ticks : ℤ
deriving DecidableEq, Repr

namespace TimeSpan

variable (ts : TimeSpan)

def Hours : ℤ := (ts.Ticks.tdiv 36000000000).tmod 24

def Minutes : ℤ := (ts.Ticks.tdiv 600000000).tmod 60

def Seconds : ℤ := (ts.Ticks.tdiv 10000000).tmod 60

def Milliseconds : ℤ := (ts.Ticks.tdiv 10000).tmod 1000

/-- `new TimeSpan(0, hours, minutes, seconds, milliseconds)` -/
def ofClock (hours minutes seconds milliseconds : ℤ) : TimeSpan :=
  ⟨((hours * 3600 + minutes * 60 + seconds) * 1000 + milliseconds) * 10000⟩

end TimeSpan

/-! ### Packing -/

/-- `m_time <<= bits; m_time += value` -/
def pushField (m_time bits value : ℕ) : ℕ := (m_time * 2 ^ bits + value) % 2 ^ 64

/-- `UDateTime(TimeSpan)`: the word, unless it throws. -/
def ofTimeSpan (ts : TimeSpan) : Option ℕ :=
  let hour := ts.Hours
  let minute := ts.Minutes
  let second := ts.Seconds
  let ms := ts.Milliseconds
  let ticks := ts.Ticks - (TimeSpan.ofClock hour minute second ms).Ticks
  if hour < 0 ∨ minute < 0 ∨ second < 0 ∨ ms < 0 ∨ ticks < 0 then none
  else
    let ticks := ticks + ms * 1000000
    some (pushField (pushField (pushField hour.toNat 6 minute.toNat) 6 second.toNat) 24
      ticks.toNat)

/-- `Set(dt)`. -/
def ofDateTime (dt : DateTime) : Option ℕ := do
  let year := dt.date.year
  let month := dt.date.month
  let day := dt.date.day
  let datetime ← newDateTime year month day dt.Hour dt.Minute dt.Second 0 dt.kind
  let ticks := dt.Ticks - datetime.Ticks
  let m_time := if 1900 ≤ year then (year - 1900).toNat else pushField 1 13 (1900 - year).toNat
  let m_time := pushField (pushField m_time 4 (month - 1)) 5 day
  let m_time := pushField (pushField (pushField m_time 5 dt.Hour) 6 dt.Minute) 6 dt.Second
  return pushField m_time 24 ticks.toNat

/-- `GetDateTime()`, unless it throws. -/
def GetDateTime (m_time : ℕ) : Option DateTime := do
  let u := UDateTime.ofValue m_time
  let ms := u.Ns100 / 10000
  let ticks := u.Ns100 % 10000
  let datetime ←
    if u.Day = 0 then newDateTime 1 1 1 u.Hour u.Minute u.Second ms .Local
    else newDateTime u.year (u.Month + 1) u.Day u.Hour u.Minute u.Second ms .Local
  datetime.AddTicks ticks

/-! ### The queue -/

/-- What the methods for dates throw. -/
inductive DateException
  | invalidData
  | argumentOutOfRange
  | queue (e : Exception)
deriving DecidableEq, Repr

abbrev DateMethod (α : Type) := Effect DateException CUQueue α

/-- A method of the queue. -/
def onQueue {α : Type} (x : Method α) : DateMethod α := fun q ↦
  match x q with
  | .ok a q => .ok a q
  | .throw e q => .throw (.queue e) q
  | .fault => .fault

/-- A value, or an exception. -/
def orThrow {α : Type} (e : DateException) : Option α → DateMethod α
  | some a => pure a
  | none => .raise e

/-- `Save(ulong)` -/
def SaveULong (ulData : ℕ) : DateMethod Unit := onQueue (CUQueue.Append (leBytes 8 ulData))

/-- `Load(out ulong)` -/
def LoadULong : DateMethod ℕ := do return ofLE (← onQueue (CUQueue.CopyTo 8))

/-- `Save(TimeSpan)` -/
def SaveTimeSpan (ts : TimeSpan) : DateMethod Unit := do
  SaveULong (← orThrow .invalidData (ofTimeSpan ts))

/-- `Save(DateTime)` -/
def SaveDateTime (dt : DateTime) : DateMethod Unit := do
  SaveULong (← orThrow .argumentOutOfRange (ofDateTime dt))

/-- `Load(out DateTime)` -/
def LoadDateTime : DateMethod DateTime := do
  orThrow .argumentOutOfRange (GetDateTime (← LoadULong))

/-- `Load(out TimeSpan)` -/
def LoadTimeSpan : DateMethod TimeSpan := do return ⟨(← LoadDateTime).timeOfDay⟩

/-! ### A word in the queue -/

section Queue

variable {q : CUQueue} {rest : List UInt8} {w : ℕ}

/-- A word that has been saved is what the queue holds. -/
theorem saveULong_ok (hq : q.Holds []) (hfront : ¬ q.Grows 8 ∨ q.m_position = 0)
    (hfits : q.Fits 8) (w : ℕ) :
    ∃ q', SaveULong w q = .ok () q' ∧ q'.Holds (leBytes 8 w ++ []) := by
  have hlen := hq.length
  have hlength : (leBytes 8 w).length = 8 := length_leBytes 8 w
  rw [List.length_nil] at hlen
  obtain ⟨q', happend, hsound, -, hcontent⟩ :=
    @CUQueue.append_ok q (leBytes 8 w) hq.toSound (by omega) (by rwa [hlength])
  refine ⟨q', ?_, hsound, ?_⟩
  · rw [SaveULong, onQueue, happend]
  · rw [hcontent (by rwa [hlength]), hq.content, List.nil_append, List.append_nil]

theorem loadULong_ok (hw : w < 2 ^ 64) (hq : q.Holds (leBytes 8 w ++ rest)) :
    LoadULong q = .ok w (q.drop 8) := by
  have hlen := hq.length
  rw [List.length_append, length_leBytes] at hlen
  have hcopy : onQueue (CUQueue.CopyTo 8) q = .ok (leBytes 8 w) (q.drop 8) := by
    rw [onQueue, (CUQueue.copyTo_holds hq (by omega)).1, List.take_left' (length_leBytes 8 w)]
  refine (Effect.bind_ok hcopy).trans ?_
  rw [ofLE_leBytes_of_lt hw]
  rfl

theorem loadDateTime_eq (hw : w < 2 ^ 64) (hq : q.Holds (leBytes 8 w ++ rest)) :
    LoadDateTime q = orThrow .argumentOutOfRange (GetDateTime w) (q.drop 8) :=
  Effect.bind_ok (loadULong_ok hw hq)

/-- What is loaded is what the word stands for. -/
theorem loadDateTime_eq_ok (hw : w < 2 ^ 64) (hq : q.Holds (leBytes 8 w ++ rest)) {dt : DateTime}
    {q' : CUQueue} : LoadDateTime q = .ok dt q' ↔ GetDateTime w = some dt ∧ q' = q.drop 8 := by
  rw [loadDateTime_eq hw hq]
  cases h : GetDateTime w with
  | none => simp [orThrow]
  | some dt' => simp [orThrow, eq_comm]

theorem loadTimeSpan_eq_ok (hw : w < 2 ^ 64) (hq : q.Holds (leBytes 8 w ++ rest)) {ts : TimeSpan}
    {q' : CUQueue} : LoadTimeSpan q = .ok ts q' ↔
      (∃ dt, GetDateTime w = some dt ∧ ts = ⟨dt.timeOfDay⟩) ∧ q' = q.drop 8 := by
  rw [LoadTimeSpan, Effect.bind_eq_ok]
  constructor
  · rintro ⟨dt, u, hload, hpure⟩
    obtain ⟨hget, rfl⟩ := (loadDateTime_eq_ok hw hq).1 hload
    cases hpure
    exact ⟨⟨dt, hget, rfl⟩, rfl⟩
  · rintro ⟨⟨dt, hget, rfl⟩, rfl⟩
    exact ⟨dt, _, (loadDateTime_eq_ok hw hq).2 ⟨hget, rfl⟩, rfl⟩

end Queue

/-! ### Words -/

/-- Ticks that do not lead to the next day. -/
theorem addTicks_of_lt (dt : DateTime) {value : ℕ} (h : dt.timeOfDay + value < TicksPerDay) :
    dt.AddTicks value = some { dt with timeOfDay := dt.timeOfDay + value, timeOfDay_lt := h } := by
  unfold DateTime.AddTicks
  simp only [Nat.div_eq_of_lt h, Function.iterate_zero_apply, dif_pos dt.year_range,
    Nat.mod_eq_of_lt h]

/-- The `DateTime` of some fields, if they are in range. -/
theorem newDateTime_addTicks (year : ℤ) (month day hour minute second fraction : ℕ)
    (kind : DateTimeKind) {dt : DateTime} :
    (newDateTime year month day hour minute second (fraction / 10000) kind >>= fun datetime ↦
        datetime.AddTicks (fraction % 10000)) = some dt ↔
      (dt.date.year = year ∧ dt.date.month = month ∧ dt.date.day = day) ∧
        dt.timeOfDay = clockTicks hour minute second fraction ∧ dt.kind = kind ∧
        ValidClock hour minute second (fraction * 100) := by
  have hclock : ValidClock hour minute second (fraction * 100) ↔
      hour < 24 ∧ minute < 60 ∧ second < 60 ∧ fraction / 10000 < 1000 := by
    unfold ValidClock
    omega
  by_cases h : ((1 ≤ year ∧ year ≤ 9999) ∧ ValidDate year month day) ∧
      hour < 24 ∧ minute < 60 ∧ second < 60 ∧ fraction / 10000 < 1000
  · obtain ⟨-, hhour, hminute, hsecond, hfraction⟩ := id h
    have hsum : clockTicks hour minute second (fraction / 10000 * 10000) + fraction % 10000 =
        clockTicks hour minute second fraction := by
      unfold clockTicks
      omega
    have hlt : clockTicks hour minute second fraction < TicksPerDay := by
      simp only [clockTicks, TicksPerSecond, TicksPerDay]
      omega
    rw [newDateTime, dif_pos h, Option.bind_eq_bind, Option.bind_some,
      addTicks_of_lt _ (by exact hsum.trans_lt hlt), Option.some.injEq, DateTime.ext_iff,
      Date.ext_iff, hclock]
    simp only [hsum]
    constructor
    · rintro ⟨⟨rfl, rfl, rfl⟩, htime, hkind⟩
      exact ⟨⟨rfl, rfl, rfl⟩, htime.symm, hkind.symm, h.2⟩
    · rintro ⟨⟨hyear, hmonth, hday⟩, htime, hkind, -⟩
      exact ⟨⟨hyear.symm, hmonth.symm, hday.symm⟩, htime.symm, hkind.symm⟩
  · rw [newDateTime, dif_neg h]
    refine iff_of_false (fun hnone ↦ nomatch hnone) ?_
    rintro ⟨⟨hyear, hmonth, hday⟩, -, -, hvalid⟩
    exact h ⟨⟨hyear ▸ dt.year_range, hyear ▸ hmonth ▸ hday ▸ dt.date.valid⟩, hclock.1 hvalid⟩

/-- The `DateTime` stands for the fields of a word; without a day these are a time of day. -/
def Denotes (u : UDateTime) (dt : DateTime) : Prop :=
  (if u.Day = 0 then dt.date.year = 1 ∧ dt.date.month = 1 ∧ dt.date.day = 1
    else dt.date.year = u.year ∧ dt.date.month = u.Month + 1 ∧ dt.date.day = u.Day) ∧
    dt.timeOfDay = clockTicks u.Hour u.Minute u.Second u.Ns100

/-- **What `GetDateTime` gives**, and when. -/
theorem getDateTime_eq_some {w : ℕ} {u : UDateTime} (hu : UDateTime.ofValue w = u) {dt : DateTime} :
    GetDateTime w = some dt ↔ Denotes u dt ∧ dt.kind = .Local ∧
      ValidClock u.Hour u.Minute u.Second (u.Ns100 * 100) := by
  unfold GetDateTime Denotes
  rw [hu]
  dsimp only
  split_ifs with hday
  · exact (newDateTime_addTicks _ _ _ _ _ _ _ _).trans and_assoc.symm
  · exact (newDateTime_addTicks _ _ _ _ _ _ _ _).trans and_assoc.symm

theorem pushField_of_lt {m_time bits value : ℕ} (h : m_time * 2 ^ bits + value < 2 ^ 64) :
    pushField m_time bits value = m_time * 2 ^ bits + value := Nat.mod_eq_of_lt h

/-! ### A time of day -/

/-- The fields of a time of day. -/
theorem pushClock {hour minute second fraction : ℕ} (hhour : hour < 24) (hminute : minute < 60)
    (hsecond : second < 60) (hfraction : fraction < 2 ^ 30) :
    pushField (pushField (pushField hour 6 minute) 6 second) 24 fraction =
      ((hour * 2 ^ 6 + minute) * 2 ^ 6 + second) * 2 ^ 24 + fraction := by
  have hinner : hour * 2 ^ 6 + minute < 2 ^ 64 := by omega
  have hmiddle : (hour * 2 ^ 6 + minute) * 2 ^ 6 + second < 2 ^ 64 := by omega
  rw [pushField_of_lt hinner, pushField_of_lt hmiddle, pushField_of_lt (by omega)]

/-- Hours, minutes, seconds, milliseconds and the ticks below. -/
structure Clock where
  hour : ℕ
  minute : ℕ
  second : ℕ
  ms : ℕ
  ticks : ℕ
  hour_lt : hour < 24
  minute_lt : minute < 60
  second_lt : second < 60
  ms_lt : ms < 1000
  ticks_lt : ticks < 10000

namespace Clock

variable (c : Clock)

/-- The time of day. -/
def total : ℕ := clockTicks c.hour c.minute c.second (c.ms * 10000 + c.ticks)

theorem exists_total {n : ℕ} (hn : n < TicksPerDay) : ∃ c : Clock, c.total = n := by
  have hhour : n / 36000000000 < 24 := Nat.div_lt_of_lt_mul hn
  refine ⟨⟨n / 36000000000, n / 600000000 % 60, n / 10000000 % 60, n / 10000 % 1000, n % 10000,
    hhour, Nat.mod_lt _ (by decide), Nat.mod_lt _ (by decide), Nat.mod_lt _ (by decide),
    Nat.mod_lt _ (by decide)⟩, ?_⟩
  simp only [total, clockTicks, TicksPerSecond]
  omega

/-- The parts as `TimeSpan` has them. -/
theorem parts_total : TimeSpan.Hours ⟨c.total⟩ = c.hour ∧ TimeSpan.Minutes ⟨c.total⟩ = c.minute ∧
    TimeSpan.Seconds ⟨c.total⟩ = c.second ∧ TimeSpan.Milliseconds ⟨c.total⟩ = c.ms := by
  obtain ⟨h, m, s, ms, r, hh, hm, hs, hms, hr⟩ := c
  have hdiv (k : ℤ) (x : ℕ) : (x : ℤ).tdiv k = x / k :=
    Int.tdiv_eq_ediv_of_nonneg (Int.natCast_nonneg x)
  have hmod {x : ℤ} (hx : 0 ≤ x) (k : ℤ) : x.tmod k = x % k := Int.tmod_eq_emod_of_nonneg hx
  have hnonneg (x : ℕ) {k : ℤ} (hk : 0 ≤ k) : 0 ≤ (x : ℤ) / k :=
    Int.ediv_nonneg (Int.natCast_nonneg x) hk
  simp only [TimeSpan.Hours, TimeSpan.Minutes, TimeSpan.Seconds, TimeSpan.Milliseconds, hdiv]
  rw [hmod (hnonneg _ (by decide)), hmod (hnonneg _ (by decide)), hmod (hnonneg _ (by decide)),
    hmod (hnonneg _ (by decide))]
  simp only [total, clockTicks, TicksPerSecond] at *
  refine ⟨?_, ?_, ?_, ?_⟩ <;> omega

theorem fraction_lt : c.ticks + c.ms * 1000000 < 2 ^ 30 := by
  have hlt := c.ms_lt
  have hr := c.ticks_lt
  omega

/-- **The word of a time of day**: a millisecond is a million of its ticks. -/
theorem ofTimeSpan_total : ofTimeSpan ⟨c.total⟩ =
    some (((c.hour * 2 ^ 6 + c.minute) * 2 ^ 6 + c.second) * 2 ^ 24 +
      (c.ticks + c.ms * 1000000)) := by
  have hsum : (c.ticks : ℤ) + c.ms * 1000000 = (c.ticks + c.ms * 1000000 : ℕ) := by push_cast; rfl
  have hclock : (c.total : ℤ) - (TimeSpan.ofClock c.hour c.minute c.second c.ms).Ticks =
      c.ticks := by
    simp only [total, clockTicks, TicksPerSecond, TimeSpan.ofClock]
    omega
  have hnonneg : ¬ ((c.hour : ℤ) < 0 ∨ (c.minute : ℤ) < 0 ∨ (c.second : ℤ) < 0 ∨ (c.ms : ℤ) < 0 ∨
      (c.ticks : ℤ) < 0) := by
    simp only [not_or, not_lt, Int.natCast_nonneg, and_self]
  obtain ⟨hhour, hminute, hsecond, hms⟩ := c.parts_total
  unfold ofTimeSpan
  dsimp only
  rw [hhour, hminute, hsecond, hms, hclock, if_neg hnonneg, hsum, Int.toNat_natCast,
    Int.toNat_natCast, Int.toNat_natCast, Int.toNat_natCast,
    pushClock c.hour_lt c.minute_lt c.second_lt c.fraction_lt]

end Clock

/-- A time of day has one hour, one minute, one second and one fraction. -/
theorem clockTicks_inj {h m s f h' m' s' f' : ℕ} (hm : m < 60) (hs : s < 60) (hf : f < 10 ^ 7)
    (hm' : m' < 60) (hs' : s' < 60) (hf' : f' < 10 ^ 7)
    (heq : clockTicks h m s f = clockTicks h' m' s' f') : h = h' ∧ m = m' ∧ s = s' ∧ f = f' := by
  simp only [clockTicks, TicksPerSecond] at heq
  have hseconds : (h * 60 + m) * 60 + s = (h' * 60 + m') * 60 + s' := by omega
  exact ⟨by omega, by omega, by omega, by omega⟩

/-- The fields of a word without a day. -/
theorem ofValue_of_lt {w : ℕ} (hw : w < 2 ^ 41) : (UDateTime.ofValue w).Day = 0 ∧
    w = (((UDateTime.ofValue w).Hour * 2 ^ 6 + (UDateTime.ofValue w).Minute) * 2 ^ 6 +
      (UDateTime.ofValue w).Second) * 2 ^ 24 + (UDateTime.ofValue w).Ns100 := by
  simp only [UDateTime.ofValue]
  omega

/-- **A time of day comes back** exactly if it has no milliseconds. -/
theorem Clock.loads_iff (c : Clock) {w : ℕ} (hw : ofTimeSpan ⟨c.total⟩ = some w) :
    w < 2 ^ 64 ∧ ((∃ dt, GetDateTime w = some dt ∧ dt.timeOfDay = c.total) ↔ c.ms = 0) := by
  have hh := c.hour_lt
  have hm := c.minute_lt
  have hs := c.second_lt
  have hms := c.ms_lt
  have hr := c.ticks_lt
  have hf := c.fraction_lt
  rw [c.ofTimeSpan_total, Option.some.injEq] at hw
  have hlt : w < 2 ^ 41 := by omega
  obtain ⟨hday, hword⟩ := ofValue_of_lt hlt
  refine ⟨hlt.trans (by decide), ?_⟩
  constructor
  · rintro ⟨dt, hget, htime⟩
    obtain ⟨hdenotes, -, -, hminute, hsecond, hfraction⟩ := (getDateTime_eq_some rfl).1 hget
    obtain ⟨h1, h2, h3, h4⟩ := clockTicks_inj hminute hsecond (by omega) hm hs (by omega)
      (hdenotes.2.symm.trans htime)
    rw [h1, h2, h3, h4] at hword
    omega
  · intro hzero
    -- Without milliseconds the fields are the parts.
    have hu := (Go.ofValue_word (u := ⟨c.ticks, c.second, c.minute, c.hour, 0, 0, 0, 0⟩)
      (by show c.ticks < _; omega) (by show c.second < _; omega) (by show c.minute < _; omega)
      (by show c.hour < _; omega) (by show 0 < _; decide) (by show 0 < _; decide)
      (by show 0 < _; decide) (by show 0 < _; decide)).2
    have hsame : Text.word ⟨c.ticks, c.second, c.minute, c.hour, 0, 0, 0, 0⟩ = w := by
      simp only [Text.word]
      omega
    rw [hsame] at hu
    have hvalid : ValidClock c.hour c.minute c.second (c.ticks * 100) := ⟨hh, hm, hs, by omega⟩
    have htotal : c.total = clockTicks c.hour c.minute c.second c.ticks := by
      rw [total, hzero, Nat.zero_mul, Nat.zero_add]
    have hday : c.total < TicksPerDay := by
      simp only [htotal, clockTicks, TicksPerSecond, TicksPerDay]
      omega
    refine ⟨⟨⟨1, 1, 1, by decide⟩, c.total, .Local, by decide, hday⟩, ?_, rfl⟩
    rw [getDateTime_eq_some hu]
    exact ⟨⟨⟨rfl, rfl, rfl⟩, htotal⟩, rfl, hvalid⟩

/-! ### A date and time -/

namespace DateTime

variable (dt : DateTime)

/-- The fields that are packed. -/
def fields : UDateTime where
  Ns100 := dt.timeOfDay % TicksPerSecond
  Second := dt.Second
  Minute := dt.Minute
  Hour := dt.Hour
  Day := dt.date.day
  Month := dt.date.month - 1
  Year := (dt.date.year - 1900).natAbs
  Neg := if 1900 ≤ dt.date.year then 0 else 1

/-- The time of day is that of the fields. -/
theorem clock_fields : dt.Hour < 24 ∧ dt.Minute < 60 ∧ dt.Second < 60 ∧
    dt.timeOfDay = clockTicks dt.Hour dt.Minute dt.Second (dt.timeOfDay % TicksPerSecond) := by
  have hlt := dt.timeOfDay_lt
  simp only [Hour, Minute, Second, clockTicks, TicksPerSecond, TicksPerDay] at *
  omega

/-- The fields are no wider than they are packed. -/
theorem ofValue_fields : Text.word dt.fields < 2 ^ 64 ∧
    UDateTime.ofValue (Text.word dt.fields) = dt.fields := by
  obtain ⟨hhour, hminute, hsecond, -⟩ := dt.clock_fields
  obtain ⟨⟨-, hmonth⟩, -, hday⟩ := dt.date.valid
  have hdays := daysIn_le dt.date.year dt.date.month
  obtain ⟨hlow, hhigh⟩ := dt.year_range
  have hfraction : dt.timeOfDay % TicksPerSecond < TicksPerSecond := Nat.mod_lt _ (by decide)
  refine Go.ofValue_word (hfraction.trans (by decide)) ?_ ?_ ?_ ?_ ?_ ?_ ?_
  · show dt.Second < 2 ^ 6
    omega
  · show dt.Minute < 2 ^ 6
    omega
  · show dt.Hour < 2 ^ 5
    omega
  · show dt.date.day < 2 ^ 5
    omega
  · show dt.date.month - 1 < 2 ^ 4
    omega
  · show (dt.date.year - 1900).natAbs < 2 ^ 13
    omega
  · show (if 1900 ≤ dt.date.year then 0 else 1) < 2
    split_ifs <;> decide

theorem pushField_mod (m_time bits value : ℕ) :
    pushField (m_time % 2 ^ 64) bits value = pushField m_time bits value := by
  unfold pushField
  exact ((Nat.mod_modEq m_time _).mul_right _).add_right _

/-- What the shifts and sums make of fields that are not too wide. -/
theorem pushFields {u : UDateTime} (hword : Text.word u < 2 ^ 64) :
    pushField (pushField (pushField (pushField (pushField (pushField (u.Neg * 2 ^ 13 + u.Year) 4
      u.Month) 5 u.Day) 5 u.Hour) 6 u.Minute) 6 u.Second) 24 u.Ns100 = Text.word u := by
  have hpush (m_time bits value bits' value' : ℕ) : pushField (pushField m_time bits value) bits'
      value' = pushField (m_time * 2 ^ bits + value) bits' value' := pushField_mod _ _ _
  simp only [hpush]
  refine Eq.trans ?_ (Nat.mod_eq_of_lt hword)
  unfold pushField Text.word
  congr 1
  ring

/-- The year as it is packed. -/
theorem pushYear : (if 1900 ≤ dt.date.year then (dt.date.year - 1900).toNat
    else pushField 1 13 (1900 - dt.date.year).toNat) = dt.fields.Neg * 2 ^ 13 + dt.fields.Year := by
  obtain ⟨hlow, hhigh⟩ := dt.year_range
  simp only [fields]
  split_ifs with hyear
  · omega
  · rw [pushField_of_lt (by omega)]
    omega

/-- **What `Set` packs.** -/
theorem ofDateTime_eq : ofDateTime dt = some (Text.word dt.fields) := by
  obtain ⟨hhour, hminute, hsecond, hclock⟩ := dt.clock_fields
  have hlt : clockTicks dt.Hour dt.Minute dt.Second 0 < TicksPerDay := by
    have hlt := dt.timeOfDay_lt
    rw [clockTicks_eq_add] at hclock
    omega
  have hwhole : newDateTime dt.date.year dt.date.month dt.date.day dt.Hour dt.Minute dt.Second 0
      dt.kind = some ⟨dt.date, clockTicks dt.Hour dt.Minute dt.Second 0, dt.kind, dt.year_range,
        hlt⟩ := dif_pos ⟨⟨dt.year_range, dt.date.valid⟩, hhour, hminute, hsecond, by decide⟩
  -- The ticks of the whole seconds are taken away.
  have hticks : dt.Ticks - DateTime.Ticks ⟨dt.date, clockTicks dt.Hour dt.Minute dt.Second 0,
      dt.kind, dt.year_range, hlt⟩ = (dt.timeOfDay % TicksPerSecond : ℕ) := by
    rw [clockTicks_eq_add] at hclock
    unfold Ticks
    dsimp only
    omega
  unfold ofDateTime
  dsimp only
  rw [hwhole, Option.bind_eq_bind, Option.bind_some, hticks, Int.toNat_natCast, dt.pushYear]
  exact congrArg some (pushFields dt.ofValue_fields.1)

/-- **A date and time comes back**, with the kind `Local`. -/
theorem getDateTime_fields :
    GetDateTime (Text.word dt.fields) = some { dt with kind := .Local } := by
  obtain ⟨hhour, hminute, hsecond, hclock⟩ := dt.clock_fields
  obtain ⟨⟨hmonth, -⟩, hday, -⟩ := dt.date.valid
  have hyear : dt.fields.year = dt.date.year := by
    simp only [fields, UDateTime.year]
    split_ifs <;> omega
  have hfraction : dt.timeOfDay % TicksPerSecond < TicksPerSecond := Nat.mod_lt _ (by decide)
  rw [getDateTime_eq_some dt.ofValue_fields.2]
  refine ⟨⟨?_, hclock⟩, rfl, hhour, hminute, hsecond, ?_⟩
  · rw [if_neg (by exact Nat.ne_of_gt hday)]
    exact ⟨hyear.symm, (Nat.sub_add_cancel hmonth).symm, rfl⟩
  · show dt.timeOfDay % TicksPerSecond * 100 < TicksPerSecond * 100
    exact Nat.mul_lt_mul_of_pos_right hfraction (by decide)

end DateTime

/-! ### What comes back -/

/-- The fields are those of a date and time of .NET, or of a time of day. -/
def ReadByNet (u : UDateTime) : Prop :=
  ValidClock u.Hour u.Minute u.Second (u.Ns100 * 100) ∧
    (u.Day = 0 ∨ (1 ≤ u.year ∧ u.year ≤ 9999) ∧ ValidDate u.year (u.Month + 1) u.Day)

instance (u : UDateTime) : Decidable (ReadByNet u) := inferInstanceAs (Decidable (_ ∧ _))

/-- **A word is read** exactly if its fields are those of a date and time. -/
theorem getDateTime_isSome_iff {w : ℕ} {u : UDateTime} (hu : UDateTime.ofValue w = u) :
    (∃ dt, GetDateTime w = some dt) ↔ ReadByNet u := by
  constructor
  · rintro ⟨dt, hget⟩
    obtain ⟨⟨hdate, -⟩, -, hvalid⟩ := (getDateTime_eq_some hu).1 hget
    refine ⟨hvalid, ?_⟩
    split_ifs at hdate with hday
    · exact .inl hday
    · obtain ⟨hyear, hmonth, hday⟩ := hdate
      exact .inr ⟨hyear ▸ dt.year_range, hyear ▸ hmonth ▸ hday ▸ dt.date.valid⟩
  · rintro ⟨hvalid, hdate⟩
    have hlt : clockTicks u.Hour u.Minute u.Second u.Ns100 < TicksPerDay := by
      obtain ⟨hhour, hminute, hsecond, hfraction⟩ := hvalid
      simp only [clockTicks, TicksPerSecond, TicksPerDay]
      omega
    simp only [getDateTime_eq_some hu, Denotes]
    split_ifs with hday
    · exact ⟨⟨⟨1, 1, 1, by decide⟩, _, .Local, by decide, hlt⟩, ⟨⟨rfl, rfl, rfl⟩, rfl⟩, rfl, hvalid⟩
    · obtain ⟨hrange, hdate⟩ := hdate.resolve_left hday
      exact ⟨⟨⟨_, _, _, hdate⟩, _, .Local, hrange, hlt⟩, ⟨⟨rfl, rfl, rfl⟩, rfl⟩, rfl, hvalid⟩

/-- A time of day that is saved is loaded as itself. -/
def TimeComesBack (q : CUQueue) (ts : TimeSpan) : Prop :=
  ∃ q₁ q₂, SaveTimeSpan ts q = .ok () q₁ ∧ LoadTimeSpan q₁ = .ok ts q₂

/-- A date and time that is saved is loaded with the same ticks. -/
def DateComesBack (q : CUQueue) (dt : DateTime) : Prop :=
  ∃ q₁ dt' q₂, SaveDateTime dt q = .ok () q₁ ∧ LoadDateTime q₁ = .ok dt' q₂ ∧ dt'.Ticks = dt.Ticks

/-- The date and time of a word is loaded, or the time of day if there is no day. -/
def WordRead (q : CUQueue) (u : UDateTime) : Prop :=
  if u.Day = 0 then ∃ ts q', LoadTimeSpan q = .ok ts q' ∧
    ts.Ticks = clockTicks u.Hour u.Minute u.Second u.Ns100
  else ∃ dt q', LoadDateTime q = .ok dt q' ∧ Denotes u dt

section RoundTrips

variable {q : CUQueue} {rest : List UInt8}

theorem load_saveTimeSpan_iff (hq : q.Holds []) (hfront : ¬ q.Grows 8 ∨ q.m_position = 0)
    (hfits : q.Fits 8) {ts : TimeSpan} (hnonneg : 0 ≤ ts.Ticks) (hday : ts.Ticks < TicksPerDay) :
    TimeComesBack q ts ↔ ts.Milliseconds = 0 := by
  obtain ⟨n, hn⟩ := Int.eq_ofNat_of_zero_le hnonneg
  obtain ⟨c, rfl⟩ := Clock.exists_total (n := n) (by exact_mod_cast hn ▸ hday)
  obtain rfl : ts = ⟨c.total⟩ := congrArg TimeSpan.mk hn
  have hpack := c.ofTimeSpan_total
  obtain ⟨hlt, hloads⟩ := c.loads_iff hpack
  obtain ⟨q₁, hsave, hholds⟩ := saveULong_ok hq hfront hfits _
  have hsaved : SaveTimeSpan ⟨c.total⟩ q = .ok () q₁ := by
    rw [SaveTimeSpan, hpack]
    exact hsave
  rw [c.parts_total.2.2.2, Nat.cast_eq_zero, ← hloads]
  constructor
  · rintro ⟨q₂, q₃, hsaved', hload⟩
    obtain rfl : q₁ = q₂ := by
      rw [hsaved] at hsaved'
      injection hsaved'
    obtain ⟨⟨dt, hget, hts⟩, -⟩ := (loadTimeSpan_eq_ok hlt hholds).1 hload
    exact ⟨dt, hget, Nat.cast_inj.1 (TimeSpan.mk.inj hts).symm⟩
  · rintro ⟨dt, hget, htime⟩
    exact ⟨q₁, _, hsaved, (loadTimeSpan_eq_ok hlt hholds).2 ⟨⟨dt, hget, by rw [htime]⟩, rfl⟩⟩

theorem load_saveDateTime (hq : q.Holds []) (hfront : ¬ q.Grows 8 ∨ q.m_position = 0)
    (hfits : q.Fits 8) (dt : DateTime) : DateComesBack q dt := by
  obtain ⟨q₁, hsave, hholds⟩ := saveULong_ok hq hfront hfits (Text.word dt.fields)
  have hsaved : SaveDateTime dt q = .ok () q₁ := by
    rw [SaveDateTime, dt.ofDateTime_eq]
    exact hsave
  exact ⟨q₁, _, _, hsaved,
    (loadDateTime_eq_ok dt.ofValue_fields.1 hholds).2 ⟨dt.getDateTime_fields, rfl⟩, rfl⟩

theorem reads_set_iff {tm : Text.Tm} {ns : ℕ}
    (hq : q.Holds (leBytes 8 (Text.word (Text.set tm ns)) ++ rest)) :
    WordRead q (Text.set tm ns) ↔ ReadByNet (Text.set tm ns) := by
  obtain ⟨hlt, hu⟩ := Go.ofValue_word_set tm ns
  rw [← getDateTime_isSome_iff hu, WordRead]
  have hdenotes {dt : DateTime} (hget : GetDateTime (Text.word (Text.set tm ns)) = some dt) :
      Denotes (Text.set tm ns) dt := ((getDateTime_eq_some hu).1 hget).1
  split_ifs
  · constructor
    · rintro ⟨ts, q', hload, -⟩
      obtain ⟨⟨dt, hget, -⟩, -⟩ := (loadTimeSpan_eq_ok hlt hq).1 hload
      exact ⟨dt, hget⟩
    · rintro ⟨dt, hget⟩
      exact ⟨_, _, (loadTimeSpan_eq_ok hlt hq).2 ⟨⟨dt, hget, rfl⟩, rfl⟩,
        congrArg Nat.cast (hdenotes hget).2⟩
  · constructor
    · rintro ⟨dt, q', hload, -⟩
      exact ⟨dt, ((loadDateTime_eq_ok hlt hq).1 hload).1⟩
    · rintro ⟨dt, hget⟩
      exact ⟨dt, _, (loadDateTime_eq_ok hlt hq).2 ⟨hget, rfl⟩, hdenotes hget⟩

/-- **What comes back from the queue.** A time of day without milliseconds, every `DateTime`, and
every date and time of .NET that `Set` packs. -/
theorem dates_read_iff (hq : q.Holds []) (hfront : ¬ q.Grows 8 ∨ q.m_position = 0)
    (hfits : q.Fits 8) {ts : TimeSpan} (hnonneg : 0 ≤ ts.Ticks) (hday : ts.Ticks < TicksPerDay)
    (dt : DateTime) {tm : Text.Tm} {ns : ℕ} {q' : CUQueue}
    (hq' : q'.Holds (leBytes 8 (Text.word (Text.set tm ns)) ++ rest)) :
    (TimeComesBack q ts ∧ DateComesBack q dt ∧ WordRead q' (Text.set tm ns)) ↔
      ts.Milliseconds = 0 ∧ ReadByNet (Text.set tm ns) := by
  rw [load_saveTimeSpan_iff hq hfront hfits hnonneg hday, reads_set_iff hq']
  exact and_congr_right' (and_iff_right (load_saveDateTime hq hfront hfits dt))

end RoundTrips

/-- The last moment of the leap day of the year 2024. -/
def leapDay : DateTime := ⟨⟨2024, 2, 29, by decide⟩, 863999999999, .Utc, by decide, by decide⟩

/-- The same without the hundreds of nanoseconds. -/
def leapDayTm : Text.Tm := ⟨59, 59, 23, 29, 1, 124⟩

/-- A queue with the word of it. -/
def leapDayQueue : CUQueue := ⟨leBytes 8 (Text.word (Text.set leapDayTm 0)), 0, 8, 64⟩

theorem leapDayQueue_holds :
    leapDayQueue.Holds (leBytes 8 (Text.word (Text.set leapDayTm 0)) ++ []) :=
  ⟨⟨by decide +kernel, by decide +kernel, by decide, by decide⟩, by decide +kernel⟩

/-- Noon, with 100 nanoseconds, and the leap day are read. -/
theorem noon_and_leapDay_read : TimeComesBack (.new 64 64) ⟨432000000001⟩ ∧
    DateComesBack (.new 64 64) leapDay ∧ WordRead leapDayQueue (Text.set leapDayTm 0) :=
  (dates_read_iff (CUQueue.new_holds (by decide) (by decide)) (.inr rfl) (by decide +kernel)
    (by decide) (by decide) leapDay leapDayQueue_holds).2 ⟨by decide, by decide⟩

/-- **A millisecond is loaded as a tenth of a second.** -/
theorem millisecond_not_loaded :
    (∃ q₁ q₂, SaveTimeSpan ⟨10000⟩ (.new 64 64) = .ok () q₁ ∧
      LoadTimeSpan q₁ = .ok ⟨1000000⟩ q₂) ∧
    ¬ ∀ (q : CUQueue) (ts : TimeSpan), q.Holds [] → q.m_position = 0 → q.Fits 8 → 0 ≤ ts.Ticks →
      ts.Ticks < TicksPerDay → TimeComesBack q ts := by
  have hnew : (CUQueue.new 64 64).Holds [] := CUQueue.new_holds (by decide) (by decide)
  have hfits : (CUQueue.new 64 64).Fits 8 := by decide +kernel
  constructor
  · obtain ⟨q₁, hsave, hholds⟩ := saveULong_ok hnew (.inr rfl) hfits 1000000
    exact ⟨q₁, _, hsave, (loadTimeSpan_eq_ok (by decide) hholds).2 ⟨⟨⟨⟨1, 1, 1, by decide⟩, 1000000,
      .Local, by decide, by decide⟩, by decide, rfl⟩, rfl⟩⟩
  · intro hall
    have hback := hall _ ⟨10000⟩ hnew rfl hfits (by decide) (by decide)
    rw [load_saveTimeSpan_iff hnew (.inr rfl) hfits (by decide) (by decide)] at hback
    exact absurd hback (by decide)

end SocketPro.CSharp
