import BlockFlow.Fault

/-!
Dates and times of the Gregorian calendar, extended to all years, and instants as microseconds.

* `dayNumber`, `civil`: the day of a date, counted from 1970-01-01, and back.
* `Clock`: a date with a time of day; `Clock.instant`, `Clock.ofInstant`: its microsecond and back; `Clock.later`: a later
  microsecond.
* `Offset`: how far a time zone is ahead of universal time.
* `Moment`: a clock reading with the offset of its time zone, if it has one.
-/

namespace BlockFlow

/-- The day of a date, counted from 1970-01-01. Years start in March, so that a leap day ends one. -/
def dayNumber (year month day : Int) : Int :=
  let y := if month ≤ 2 then year - 1 else year
  let era := y / 400
  let yearOfEra := y - era * 400
  let dayOfYear := (153 * ((month + 9) % 12) + 2) / 5 + day - 1
  let dayOfEra := yearOfEra * 365 + yearOfEra / 4 - yearOfEra / 100 + dayOfYear
  era * 146097 + dayOfEra - 719468

/-- Year, month and day of a day counted from 1970-01-01. -/
def civil (days : Int) : Int × Int × Int :=
  let z := days + 719468
  let era := z / 146097
  let dayOfEra := z - era * 146097
  let yearOfEra := (dayOfEra - dayOfEra / 1460 + dayOfEra / 36524 - dayOfEra / 146096) / 365
  let dayOfYear := dayOfEra - (365 * yearOfEra + yearOfEra / 4 - yearOfEra / 100)
  let shifted := (5 * dayOfYear + 2) / 153
  let day := dayOfYear - (153 * shifted + 2) / 5 + 1
  let month := if shifted < 10 then shifted + 3 else shifted - 9
  let year := yearOfEra + era * 400
  (if month ≤ 2 then year + 1 else year, month, day)

/-- A date and a time of day. -/
structure Clock where
  year : Int
  month : Int
  day : Int
  hour : Int
  minute : Int
  second : Int
  micro : Int
  deriving DecidableEq, Repr

namespace Clock

/-- The microsecond of a clock reading, counted from the start of 1970. -/
def instant (c : Clock) : Int :=
  (((dayNumber c.year c.month c.day * 24 + c.hour) * 60 + c.minute) * 60 + c.second) * 1000000 + c.micro

/-- The clock reading of a microsecond. -/
def ofInstant (t : Int) : Clock :=
  let seconds := t / 1000000
  let days := seconds / 86400
  let rest := seconds % 86400
  let (year, month, day) := civil days
  ⟨year, month, day, rest / 3600, rest / 60 % 60, rest % 60, t % 1000000⟩

/-- The reading of a microsecond, if it falls into the years 1 to 9999. -/
def ofInstant? (t : Int) : Except Fault Clock :=
  let c := ofInstant t
  if 1 ≤ c.year ∧ c.year ≤ 9999 then .ok c else .error .dateOutOfRange

/-- The microsecond that comes so many microseconds after another one. A span has at most 999999999 days, and a number of
days has to fit 32 bits before that is looked at. -/
def later (t micros : Int) : Except Fault Int :=
  let days := micros / 86400000000
  if days < -Int.pow 2 31 || Int.pow 2 31 ≤ days then .error .spanTooLarge
  else if 999999999 < days.natAbs then .error (.tooManyDays days)
  else (ofInstant? (t + micros)).map fun _ => t + micros

end Clock

/-- How far a zone is ahead of universal time, in microseconds. -/
structure Offset where
  micros : Int
  deriving DecidableEq, Repr

/-- Most zones are ahead by whole minutes. -/
def Offset.ofMinutes (minutes : Int) : Offset := ⟨minutes * 60000000⟩

instance : Coe Int Offset := ⟨Offset.ofMinutes⟩

instance (minutes : Nat) : OfNat Offset minutes := ⟨Offset.ofMinutes minutes⟩

@[simp] theorem Offset.micros_zero : (0 : Offset).micros = 0 := rfl

/-- A clock reading, with the offset of its zone if it has one. -/
structure Moment where
  clock : Clock
  offset : Option Offset
  deriving DecidableEq, Repr

/-- The reading in universal time. One without zone is taken as it is. -/
def Moment.universal (m : Moment) : Except Fault Clock :=
  match m.offset with
  | none => .ok m.clock
  | some ahead => Clock.ofInstant? (m.clock.instant - ahead.micros)

end BlockFlow
