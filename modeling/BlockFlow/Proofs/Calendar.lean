import BlockFlow.Time.Stamp

/-!
The calendar and its inverse. The date of a day gives the day back, so the clock reading of an instant denotes that instant.

* `yearOfEra`, `dayOfYear_bounds`: the year that a day of an era falls into.
* `dayNumber_civil`: **the date of a day has the number of that day.**
* `Clock.instant_ofInstant`: **the reading of an instant is the reading of that instant.**
* `Instant`: the instants that a clock shows; `Instant.generated`: their stamp in generated code.
-/

namespace BlockFlow

/-! ## Days and dates -/

/-- The year of an era, counted from March, that a day of the era falls into. -/
def yearOfEra (day : Int) : Int := (day - day / 1460 + day / 36524 - day / 146096) / 365

section Era

variable {day : Int} (hday : 0 ≤ day) (hera : day < 146097)
include hday hera

theorem yearOfEra_bounds : 0 ≤ yearOfEra day ∧ yearOfEra day < 400 := by
  unfold yearOfEra
  omega

/-- The centuries of an era have 36524 days, except that the last one has a day more. Before that day the year falls into
the century that the day falls into. -/
theorem yearOfEra_century (hlast : day ≠ 146096) : yearOfEra day / 100 = day / 36524 := by
  unfold yearOfEra
  omega

/-- A day falls into the year that is found for it: it is at most 365 days after its start. -/
theorem dayOfYear_bounds :
    0 ≤ day - (365 * yearOfEra day + yearOfEra day / 4 - yearOfEra day / 100) ∧
      day - (365 * yearOfEra day + yearOfEra day / 4 - yearOfEra day / 100) ≤ 365 := by
  by_cases hlast : day = 146096
  · subst hlast
    decide
  · rw [yearOfEra_century hday hera hlast]
    unfold yearOfEra
    omega

end Era

/-- The months of a year that starts in March have 153 days in five of them. -/
theorem dayNumber_of_parts {era year dayOfYear : Int} (hyear : 0 ≤ year ∧ year < 400)
    (hday : 0 ≤ dayOfYear ∧ dayOfYear ≤ 365) (shifted month : Int) (hshifted : shifted = (5 * dayOfYear + 2) / 153)
    (hmonth : month = if shifted < 10 then shifted + 3 else shifted - 9) :
    dayNumber (if month ≤ 2 then year + era * 400 + 1 else year + era * 400) month
        (dayOfYear - (153 * shifted + 2) / 5 + 1) =
      era * 146097 + (365 * year + year / 4 - year / 100 + dayOfYear) - 719468 := by
  have hback : (month + 9) % 12 = shifted := by
    subst hmonth
    split <;> omega
  have hy : (if month ≤ 2 then (if month ≤ 2 then year + era * 400 + 1 else year + era * 400) - 1
      else if month ≤ 2 then year + era * 400 + 1 else year + era * 400) = year + era * 400 := by
    split <;> omega
  have hera : (year + era * 400) / 400 = era := by omega
  simp only [dayNumber, hback, hy, hera]
  have hrest : year + era * 400 - era * 400 = year := by omega
  rw [hrest]
  omega

/-- **The date of a day has the number of that day.** -/
theorem dayNumber_civil (days : Int) : dayNumber (civil days).1 (civil days).2.1 (civil days).2.2 = days := by
  have hday : 0 ≤ days + 719468 - (days + 719468) / 146097 * 146097 := by omega
  have hera : days + 719468 - (days + 719468) / 146097 * 146097 < 146097 := by omega
  have hparts := @dayNumber_of_parts ((days + 719468) / 146097) _ _ (yearOfEra_bounds hday hera)
    (dayOfYear_bounds hday hera) _ _ rfl rfl
  refine hparts.trans ?_
  omega

namespace Clock

/-- **The reading of an instant is the reading of that instant.** -/
theorem instant_ofInstant (t : Int) : (ofInstant t).instant = t := by
  have hdays : dayNumber (ofInstant t).year (ofInstant t).month (ofInstant t).day = t / 1000000 / 86400 :=
    dayNumber_civil _
  rw [instant, hdays]
  simp only [ofInstant]
  omega

end Clock

/-! ## Instants -/

/-- An instant that a clock shows: one of the years 1 to 9999. -/
structure Instant where
  micros : Int
  shown : 1 ≤ (Clock.ofInstant micros).year ∧ (Clock.ofInstant micros).year ≤ 9999

namespace Instant

/-- What a clock in universal time shows at the instant. -/
def moment (t : Instant) : Moment := ⟨Clock.ofInstant t.micros, some 0⟩

theorem ofInstant? (t : Instant) : Clock.ofInstant? t.micros = .ok (Clock.ofInstant t.micros) := if_pos t.shown

/-- The stamp of an instant in generated code. -/
theorem generated (t : Instant) : Stamp.generated t.moment = .ok (Stamp.write 1 (Clock.ofInstant t.micros)) := by
  have huniversal : t.moment.universal = .ok (Clock.ofInstant t.micros) := by
    rw [moment, Moment.universal, Clock.instant_ofInstant]
    simpa using t.ofInstant?
  rw [Stamp.generated, huniversal]
  rfl

/-- The stamp of an instant in what is saved. -/
def savedStamp (t : Instant) : String := Stamp.write 4 (Clock.ofInstant t.micros)

theorem saved (t : Instant) : Stamp.saved t.micros = .ok t.savedStamp := by
  rw [Stamp.saved, t.ofInstant?]
  rfl

end Instant

end BlockFlow
