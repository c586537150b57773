import BlockFlow.Proofs.Stamps
import BlockFlow.Workspace

/-!
Time zones and stamps. A clock reading and how far its zone is ahead of universal time denote an instant, and the stamp in
generated code tells nothing else of them. It writes the one reading of the calendar that the instant has in universal time.

* `IsDate`, `nextDate`: the dates of the calendar; `civil_succ`: **days are numbered as the calendar runs.**
* `Clock.IsReading`: the readings of the calendar; `Clock.isReading_iff`: **an instant has exactly one of them.**
* `Clock.form`: `YYYY-MM-DDTHH:MM:SS.mmmZ`; `Stamp.toList_write`: a stamp has that form.
* `Zoned`: the readings of clocks anywhere in the years 1000 to 9999; `Zoned.generated_apply`: their stamp.
* `Zoned.generated_ordered_form`: **the stamps of readings in any zones have this form and the order of their milliseconds.**
-/

namespace BlockFlow

/-! ## Dates of the calendar -/

/-- The number of days of a month. -/
def monthLength (year month : Int) : Int :=
  if month = 2 then if year % 4 = 0 ∧ (year % 100 ≠ 0 ∨ year % 400 = 0) then 29 else 28
  else if month = 4 ∨ month = 6 ∨ month = 9 ∨ month = 11 then 30
  else 31

/-- A date of the calendar. -/
structure IsDate (year month day : Int) : Prop where
  inYear : 1 ≤ month ∧ month ≤ 12
  inMonth : 1 ≤ day ∧ day ≤ monthLength year month

/-- The first day of a month of a year that starts in March, counted from that of the year. -/
def monthStart (shifted : Int) : Int := (153 * shifted + 2) / 5

/-- February ends a year that starts in March. -/
theorem monthLength_two (year : Int) : monthLength (year + 1) 2 = yearStart (year + 1) - yearStart year - monthStart 11 := by
  simp only [monthLength, yearStart, monthStart, if_true]
  split <;> omega

theorem monthLength_eq (year : Int) {month : Int} (h : 1 ≤ month ∧ month ≤ 12) (hmonth : month ≠ 2) :
    monthLength year month = monthStart ((month + 9) % 12 + 1) - monthStart ((month + 9) % 12) := by
  rw [monthLength, if_neg hmonth]
  obtain rfl | rfl | rfl | rfl | rfl | rfl | rfl | rfl | rfl | rfl | rfl : month = 1 ∨ month = 3 ∨ month = 4 ∨ month = 5 ∨
    month = 6 ∨ month = 7 ∨ month = 8 ∨ month = 9 ∨ month = 10 ∨ month = 11 ∨ month = 12 := by omega
  all_goals rfl

theorem monthLength_le (year : Int) {month : Int} (h : 1 ≤ month ∧ month ≤ 12) :
    monthLength year month ≤ monthStart ((month + 9) % 12 + 1) - monthStart ((month + 9) % 12) := by
  by_cases hmonth : month = 2
  · subst hmonth
    rw [monthLength, if_pos rfl]
    split <;> decide
  · exact Int.le_of_eq (monthLength_eq year h hmonth)

theorem month_of_day {shifted day : Int} (h : monthStart shifted ≤ day) (hend : day < monthStart (shifted + 1)) :
    (5 * day + 2) / 153 = shifted := by
  simp only [monthStart] at h hend
  omega

theorem dayNumber_eq (year month day : Int) : dayNumber year month day + 719468 =
    yearStart (if month ≤ 2 then year - 1 else year) + (monthStart ((month + 9) % 12) + day - 1) := by
  simp only [dayNumber, monthStart, yearStart]
  generalize (if month ≤ 2 then year - 1 else year) = start
  omega

/-- A date of the calendar is that of a day of a year that starts in March. -/
theorem IsDate.fallsIn {year month day : Int} (h : IsDate year month day) :
    ∃ start dayOfYear, FallsIn (dayNumber year month day) start dayOfYear ∧ (year, month, day) = dateIn start dayOfYear := by
  obtain ⟨hmonth, hday⟩ := h
  have hlength := monthLength_le year hmonth
  refine ⟨_, _, ⟨?_, ?_, dayNumber_eq year month day⟩, ?_⟩
  · simp only [monthStart]
    omega
  · by_cases htwo : month = 2
    · subst htwo
      have hlength := monthLength_two (year - 1)
      rw [Int.sub_add_cancel] at hlength
      rw [if_pos (by decide), Int.sub_add_cancel]
      change monthStart 11 + day - 1 < _
      omega
    · have hyear := yearLength_bounds (if month ≤ 2 then year - 1 else year)
      have hshifted : (month + 9) % 12 ≤ 10 := by omega
      generalize (month + 9) % 12 = shifted at *
      simp only [monthStart] at hlength ⊢
      omega
  · rw [dateIn, @month_of_day ((month + 9) % 12) _ (by omega) (by omega)]
    simp only [monthStart, Prod.mk.injEq]
    omega

theorem isDate_dateIn {days year day : Int} (h : FallsIn days year day) :
    IsDate (dateIn year day).1 (dateIn year day).2.1 (dateIn year day).2.2 := by
  obtain ⟨hmonth, hfirst, -⟩ := dateIn_bounds h.bounds year
  refine ⟨hmonth, hfirst, ?_⟩
  obtain ⟨hday, hend, -⟩ := h
  have hlast : (dateIn year day).2.2 = day - monthStart ((5 * day + 2) / 153) + 1 := rfl
  have hyear : (dateIn year day).1 = if (dateIn year day).2.1 ≤ 2 then year + 1 else year := rfl
  have hback : ((dateIn year day).2.1 + 9) % 12 = (5 * day + 2) / 153 := by
    have hlength := yearLength_bounds year
    simp only [dateIn]
    omega
  by_cases htwo : (dateIn year day).2.1 = 2
  · rw [htwo] at hback hyear
    rw [hlast, htwo, hyear, if_pos (by decide), monthLength_two, ← hback]
    change day - monthStart 11 + 1 ≤ _
    omega
  · rw [monthLength_eq _ hmonth htwo, hback, hlast]
    simp only [monthStart]
    omega

theorem isDate_civil (days : Int) : IsDate (civil days).1 (civil days).2.1 (civil days).2.2 := by
  obtain ⟨year, day, hfalls, hdate⟩ := exists_dateIn days
  rw [hdate]
  exact isDate_dateIn hfalls

theorem FallsIn.unique {days year day year' day' : Int} (h : FallsIn days year day) (h' : FallsIn days year' day') :
    year = year' ∧ day = day' := by
  obtain ⟨hfirst, hlast, hnumber⟩ := h
  obtain ⟨hfirst', hlast', hnumber'⟩ := h'
  rcases Int.lt_trichotomy year year' with hyears | rfl | hyears
  · have := yearStart_le hyears
    omega
  · omega
  · have := yearStart_le hyears
    omega

/-- **The number of a date of the calendar has that date.** -/
theorem civil_dayNumber {year month day : Int} (h : IsDate year month day) :
    civil (dayNumber year month day) = (year, month, day) := by
  obtain ⟨start, dayOfYear, hfalls, hdate⟩ := h.fallsIn
  obtain ⟨start', dayOfYear', hfalls', hdate'⟩ := exists_dateIn (dayNumber year month day)
  obtain ⟨rfl, rfl⟩ := hfalls.unique hfalls'
  rw [hdate', hdate]

/-- The date of the day after a date. -/
def nextDate (date : Int × Int × Int) : Int × Int × Int :=
  if date.2.2 < monthLength date.1 date.2.1 then (date.1, date.2.1, date.2.2 + 1)
  else if date.2.1 < 12 then (date.1, date.2.1 + 1, 1)
  else (date.1 + 1, 1, 1)

theorem monthLength_pos (year month : Int) : 1 ≤ monthLength year month := by
  simp only [monthLength]
  omega

theorem IsDate.next {year month day : Int} (h : IsDate year month day) :
    IsDate (nextDate (year, month, day)).1 (nextDate (year, month, day)).2.1 (nextDate (year, month, day)).2.2 := by
  obtain ⟨hmonth, hday⟩ := h
  simp only [nextDate]
  split
  · exact ⟨hmonth, Int.le_add_one hday.1, by assumption⟩
  · split
    · exact ⟨⟨Int.le_add_one hmonth.1, by assumption⟩, Int.le_refl 1, monthLength_pos _ _⟩
    · exact ⟨⟨Int.le_refl 1, (by decide : (1 : Int) ≤ 12)⟩, Int.le_refl 1, monthLength_pos _ _⟩

/-- The months of a year follow each other, and February is followed by the next year. -/
theorem dayNumber_nextMonth (year : Int) {month : Int} (h : 1 ≤ month ∧ month < 12) :
    dayNumber year (month + 1) 1 = dayNumber year month (monthLength year month) + 1 := by
  have hnumber := dayNumber_eq year month (monthLength year month)
  have hnext := dayNumber_eq year (month + 1) 1
  by_cases htwo : month = 2
  · subst htwo
    have hlength := monthLength_two (year - 1)
    rw [Int.sub_add_cancel] at hlength
    change _ = yearStart (year - 1) + (monthStart 11 + _ - 1) at hnumber
    change _ = yearStart year + 0 at hnext
    omega
  · have hlength := monthLength_eq year ⟨h.1, by omega⟩ htwo
    have hshifted : (month + 1 + 9) % 12 = (month + 9) % 12 + 1 := by omega
    have hyear : (if month + 1 ≤ 2 then year - 1 else year) = if month ≤ 2 then year - 1 else year := by omega
    rw [hshifted, hyear] at hnext
    omega

theorem dayNumber_nextYear (year : Int) : dayNumber (year + 1) 1 1 = dayNumber year 12 (monthLength year 12) + 1 := by
  have hnumber := dayNumber_eq year 12 (monthLength year 12)
  have hnext := dayNumber_eq (year + 1) 1 1
  change _ = yearStart year + 305 at hnumber
  change _ = yearStart (year + 1 - 1) + 306 at hnext
  rw [Int.add_sub_cancel] at hnext
  omega

theorem dayNumber_nextDate {year month day : Int} (h : IsDate year month day) :
    dayNumber (nextDate (year, month, day)).1 (nextDate (year, month, day)).2.1 (nextDate (year, month, day)).2.2 =
      dayNumber year month day + 1 := by
  obtain ⟨hmonth, hday⟩ := h
  simp only [nextDate]
  split
  · simp only [dayNumber]
    omega
  · obtain rfl : day = monthLength year month := by omega
    split
    · exact dayNumber_nextMonth year (by omega)
    · obtain rfl : month = 12 := by omega
      exact dayNumber_nextYear year

/-- **Days are numbered as the calendar runs.** -/
theorem civil_succ (days : Int) : civil (days + 1) = nextDate (civil days) := by
  have hdate := isDate_civil days
  have hnumber := dayNumber_nextDate hdate
  rw [dayNumber_civil] at hnumber
  rw [← hnumber, civil_dayNumber hdate.next]

/-! ## Readings of the calendar -/

namespace Clock

/-- A date of the calendar with a time of day. -/
structure IsReading (c : Clock) : Prop where
  date : IsDate c.year c.month c.day
  hour : 0 ≤ c.hour ∧ c.hour < 24
  minute : 0 ≤ c.minute ∧ c.minute < 60
  second : 0 ≤ c.second ∧ c.second < 60
  micro : 0 ≤ c.micro ∧ c.micro < 1000000

theorem isReading_ofInstant (t : Int) : (ofInstant t).IsReading := by
  refine ⟨isDate_civil (t / 1000000 / 86400), ?_, ?_, ?_, ?_⟩
  all_goals
    simp only [ofInstant]
    omega

/-- **A reading of the calendar is that of its instant.** -/
theorem ofInstant_instant {c : Clock} (h : c.IsReading) : ofInstant c.instant = c := by
  obtain ⟨hdate, hhour, hminute, hsecond, hmicro⟩ := h
  have hseconds : c.instant / 1000000 =
      ((dayNumber c.year c.month c.day * 24 + c.hour) * 60 + c.minute) * 60 + c.second := by
    rw [instant]
    omega
  have hrest : c.instant % 1000000 = c.micro := by
    rw [instant]
    omega
  have hdays : c.instant / 1000000 / 86400 = dayNumber c.year c.month c.day := by omega
  have hcivil : civil (c.instant / 1000000 / 86400) = (c.year, c.month, c.day) := by rw [hdays, civil_dayNumber hdate]
  have htime : c.instant / 1000000 % 86400 = (c.hour * 60 + c.minute) * 60 + c.second := by omega
  simp only [ofInstant, hcivil, hrest, htime]
  congr 1 <;> omega

/-- **An instant has exactly one reading of the calendar.** -/
theorem isReading_iff (c : Clock) (t : Int) : c.IsReading ∧ c.instant = t ↔ c = ofInstant t := by
  constructor
  · rintro ⟨h, rfl⟩
    exact (ofInstant_instant h).symm
  · rintro rfl
    exact ⟨isReading_ofInstant t, instant_ofInstant t⟩

end Clock

/-! ## The form of a stamp -/

/-- The last figures of a number, so many of them. -/
def figures : Nat → Int → List Char
  | 0, _ => []
  | width + 1, n => figures width (n / 10) ++ [(n % 10).natAbs.digitChar]

@[simp] theorem length_figures (width : Nat) (n : Int) : (figures width n).length = width := by
  induction width generalizing n with
  | zero => rfl
  | succ width ih => rw [figures, List.length_append, ih, List.length_singleton]

/-- The year in four figures, month, day, hour, minute and second in two each, and the milliseconds in three. -/
def Clock.form (c : Clock) : List Char :=
  figures 4 c.year ++ ['-'] ++ figures 2 c.month ++ ['-'] ++ figures 2 c.day ++ ['T'] ++ figures 2 c.hour ++ [':'] ++
    figures 2 c.minute ++ [':'] ++ figures 2 c.second ++ ['.'] ++ figures 3 (c.micro / 1000) ++ ['Z']

theorem Clock.length_form (c : Clock) : c.form.length = 24 := by simp [form]

namespace Stamp

/-- A number that fits a width is padded to its last figures. -/
theorem toList_padded {width : Nat} {n : Int} (h : 0 ≤ n ∧ n < Int.pow 10 (width + 1)) :
    (padded (width + 1) n).toList = figures (width + 1) n := by
  induction width generalizing n with
  | zero =>
    have hdigit : 0 ≤ n ∧ n < 10 := h
    rw [toList_padded_one hdigit, figures, figures, List.nil_append, Int.emod_eq_of_lt hdigit.1 hdigit.2]
  | succ width ih =>
    have hpow : Int.pow 10 (width + 1 + 1) = Int.pow 10 (width + 1) * 10 := rfl
    rw [toList_padded_succ width h.1, ih (by omega)]
    rfl

/-- A number that fills a width is not padded. -/
theorem padded_one {width : Nat} {n : Int} (hwidth : 0 < width) (h : Nat.pow 10 width ≤ n.natAbs) :
    padded 1 n = padded (width + 1) n := by
  have hlength : width < (Nat.toDigits 10 n.natAbs).length := by
    rw [← Nat.not_le, Nat.length_toDigits_le_iff (by decide) hwidth]
    exact Nat.not_lt.2 h
  rw [padded, padded, Nat.sub_eq_zero_of_le (by omega), Nat.sub_eq_zero_of_le (by omega)]

/-- **A stamp with four digits for the year has the form of its reading.** -/
theorem toList_write {c : Clock} (h : c.Fits) : (write 4 c).toList = c.form := by
  have hyear : (padded 4 c.year).toList = figures 4 c.year := toList_padded h.year
  have hfield {n : Int} (hn : 0 ≤ n ∧ n < 100) : (padded 2 n).toList = figures 2 n := toList_padded hn
  have hmicro := h.micro
  have hmillis : (padded 3 (c.micro / 1000)).toList = figures 3 (c.micro / 1000) :=
    toList_padded (show 0 ≤ c.micro / 1000 ∧ c.micro / 1000 < 1000 by omega)
  simp only [write, String.toList_append, hyear, hfield h.month, hfield h.day, hfield h.hour, hfield h.minute,
    hfield h.second, hmillis]
  rfl

/-- From the year 1000 on, a year is written with four digits also where no width is asked for. -/
theorem write_one {c : Clock} (h : 1000 ≤ c.year) : write 1 c = write 4 c := by
  have hfilled : Nat.pow 10 3 ≤ c.year.natAbs := by
    change 1000 ≤ c.year.natAbs
    omega
  rw [write, write, padded_one (by decide) hfilled]

end Stamp

/-- **Instants have one stamp exactly if they fall into one millisecond.** -/
theorem Instant.savedStamp_eq_iff (t u : Instant) : t.savedStamp = u.savedStamp ↔ t.milli = u.milli := by
  rw [← String.toList_inj, ranked_savedStamp.eq_iff]
  refine ⟨fun h => ?_, Clock.rank_ofInstant_congr⟩
  rcases Int.lt_trichotomy t.milli u.milli with hlt | heq | hlt
  · have := Clock.rank_ofInstant_lt hlt
    omega
  · exact heq
  · have := Clock.rank_ofInstant_lt hlt
    omega

/-! ## Readings in time zones -/

/-- A reading of a clock somewhere, at an instant of the years 1000 to 9999 of universal time. -/
structure Zoned where
  clock : Clock
  ahead : Offset
  years : 1000 ≤ (Clock.ofInstant (clock.instant - ahead.micros)).year ∧
    (Clock.ofInstant (clock.instant - ahead.micros)).year ≤ 9999

namespace Zoned

def moment (a : Zoned) : Moment := ⟨a.clock, some a.ahead⟩

/-- The instant of a reading, in universal time. -/
def instant (a : Zoned) : Instant := ⟨a.clock.instant - a.ahead.micros, by have := a.years; omega⟩

/-- The stamp of a reading in generated code is that of its instant in what is saved. -/
theorem generated_apply (a : Zoned) : Stamp.generated a.moment = .ok a.instant.savedStamp := by
  have huniversal : a.moment.universal = .ok (Clock.ofInstant a.instant.micros) := a.instant.ofInstant?
  have hyear : 1000 ≤ (Clock.ofInstant a.instant.micros).year := a.years.1
  rw [Stamp.generated, huniversal, Except.map, Stamp.write_one hyear, Instant.savedStamp]

-- a reading of the first of March, two hours ahead, is of the leap day before
example : Stamp.generated ⟨⟨2024, 3, 1, 1, 30, 0, 1999⟩, some 120⟩ = .ok "2024-02-29T23:30:00.001Z" := by cbv

/-- **The stamp of a reading in generated code.** It has 24 characters and the form of the one reading that the instant has
in universal time, and it is what a clock at that instant writes into what is saved. Of two readings in any zones, the stamps
are the same if they fall into one millisecond, and ordered as texts as their milliseconds are in time. -/
theorem generated_ordered_form (a b : Zoned) : ∃ text text' : String,
    Stamp.generated a.moment = .ok text ∧ Stamp.generated b.moment = .ok text' ∧
      (∃ c : Clock, (∀ c' : Clock, c'.IsReading ∧ c'.instant = a.clock.instant - a.ahead.micros ↔ c' = c) ∧
        text.toList = c.form ∧ text.length = 24) ∧
      (∀ w : Workspace, Work.stamp { w with now := a.instant.micros } = (.ok text, { w with now := a.instant.micros })) ∧
      (text = text' ↔ a.instant.milli = b.instant.milli) ∧ (text < text' ↔ a.instant.milli < b.instant.milli) := by
  refine ⟨_, _, a.generated_apply, b.generated_apply, ?_, ?_, Instant.savedStamp_eq_iff _ _, Instant.savedStamp_lt_iff _ _⟩
  · have hform : a.instant.savedStamp.toList = (Clock.ofInstant a.instant.micros).form :=
      Stamp.toList_write (Clock.fits_ofInstant a.instant.shown)
    refine ⟨_, fun c' => Clock.isReading_iff c' _, hform, ?_⟩
    rw [← String.length_toList, hform, Clock.length_form]
  · intro w
    rw [Work.stamp_apply, a.instant.saved]

end Zoned

end BlockFlow
