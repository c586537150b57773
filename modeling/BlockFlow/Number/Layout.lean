import BlockFlow.Number.Extended

/-!
How numbers are laid out as text. One `Layout` record holds every decision of a format, and one
writer serves them all.

* `Layout.plain`: the text of a number wherever a value is shown.
* `Layout.json`: the same with the JSON spellings of the special values.
* `Layout.brief`: six significant digits, for durations in messages.
* `Layout.column`: fifteen significant digits, the text kept in a table column.
-/

namespace BlockFlow

/-- The decisions of a number format. -/
structure Layout where
  /-- the digits that are shown -/
  digits : Binary64 → Decimal
  /-- least and greatest power of ten of the first digit that is written without exponent -/
  least : Int
  greatest : Int
  /-- whether a number without fraction still shows `.0` -/
  showPoint : Bool
  /-- whether one digit before an exponent still shows `.0` -/
  showPointBeforeExponent : Bool
  /-- whether a negative zero shows its sign -/
  signedZero : Bool
  nan : String
  infinity : String

namespace Layout

/-- The fewest digits that read back; an exponent from `1e+16` up and below `0.0001`. -/
def plain : Layout where
  digits := Binary64.shortest
  least := -4
  greatest := 15
  showPoint := true
  showPointBeforeExponent := false
  signedZero := true
  nan := "nan"
  infinity := "inf"

def json : Layout := { plain with nan := "NaN", infinity := "Infinity" }

/-- Six significant digits without trailing zeros; an exponent from `1e+06` up. -/
def brief : Layout where
  digits := Binary64.rounded 6
  least := -4
  greatest := 5
  showPoint := false
  showPointBeforeExponent := false
  signedZero := true
  nan := "nan"
  infinity := "inf"

/-- Fifteen significant digits, found with extended precision, and always a point; an exponent from `1.0e+15` up. -/
def column : Layout where
  digits := Binary64.leading15
  least := -4
  greatest := 14
  showPoint := true
  showPointBeforeExponent := true
  signedZero := false
  nan := ""
  infinity := "Inf"

/-- Digits with the point after the power of ten zero. -/
def positional (l : Layout) (digits : List Char) (leading : Int) : List Char :=
  if leading < 0 then
    '0' :: '.' :: List.replicate ((-leading).toNat - 1) '0' ++ digits
  else
    let whole := leading.toNat + 1
    if digits.length ≤ whole then
      digits ++ List.replicate (whole - digits.length) '0' ++ (if l.showPoint then ['.', '0'] else [])
    else digits.take whole ++ '.' :: digits.drop whole

/-- An exponent: its sign and at least two digits. -/
def exponentText (e : Int) : List Char :=
  let digits := Nat.toDigits 10 e.natAbs
  'e' :: (if e < 0 then '-' else '+') :: List.replicate (2 - digits.length) '0' ++ digits

/-- Digits with the point after the first one, then the exponent. -/
def scientific (l : Layout) (digits : List Char) (leading : Int) : List Char :=
  let fraction := digits.drop 1
  let point :=
    if fraction.isEmpty then (if l.showPointBeforeExponent then ['.', '0'] else []) else '.' :: fraction
  digits.take 1 ++ point ++ exponentText leading

/-- A decimal without its sign. -/
def magnitude (l : Layout) (d : Decimal) : List Char :=
  if l.least ≤ d.leading ∧ d.leading ≤ l.greatest then l.positional d.digits d.leading
  else l.scientific d.digits d.leading

/-- The text of a number as a list of characters. -/
def chars (l : Layout) (x : Binary64) : List Char :=
  match x with
  | .nan _ => l.nan.toList
  | .infinite s => if s then '-' :: l.infinity.toList else l.infinity.toList
  | .finite s m _ _ =>
    let d := l.digits x
    if s ∧ (m ≠ 0 ∨ l.signedZero) then '-' :: l.magnitude d else l.magnitude d

/-- The text of a number. -/
def write (l : Layout) (x : Binary64) : String := String.ofList (l.chars x)

end Layout

end BlockFlow
