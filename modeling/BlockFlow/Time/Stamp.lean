import BlockFlow.Time.Calendar

/-!
Time stamps: date and time in universal time with milliseconds, which are cut off and not rounded.

* `Stamp.generated`: the stamp in generated code, whose year has no leading zeros.
* `Stamp.saved`: the stamp of saved flows and settings, whose year has four digits.
-/

namespace BlockFlow.Stamp

/-- The digits of a number, with zeros in front up to a width. -/
def padded (width : Nat) (n : Int) : String :=
  let digits := Nat.toDigits 10 n.natAbs
  String.ofList (List.replicate (width - digits.length) '0' ++ digits)

/-- A stamp with the year in at least so many digits. -/
def write (yearWidth : Nat) (c : Clock) : String :=
  padded yearWidth c.year ++ "-" ++ padded 2 c.month ++ "-" ++ padded 2 c.day ++ "T" ++ padded 2 c.hour ++ ":" ++
    padded 2 c.minute ++ ":" ++ padded 2 c.second ++ "." ++ padded 3 (c.micro / 1000) ++ "Z"

/-- The stamp of a moment in generated code. -/
def generated (m : Moment) : Except Fault String := m.universal.map (write 1)

/-- The stamp of an instant in saved flows. -/
def saved (t : Int) : Except Fault String := (Clock.ofInstant? t).map (write 4)

end BlockFlow.Stamp
