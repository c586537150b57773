import BlockFlow.Number.Binary64
import BlockFlow.Text.Blank
import BlockFlow.Text.Digit

/-!
Numbers written as text, the way a person types them: blanks around, an optional sign, decimal digits of any
script, single underscores between digits.

* `readReal`: a floating-point number; also `inf`, `infinity` and `nan` in any case.
* `splitInt`, `readInt`: an integer at the front, and a text that is one.
-/

namespace BlockFlow.Number

/-- One of the ten ASCII digits. -/
def isDigit (c : Char) : Bool := '0' ≤ c && c ≤ '9'

/-- The number that ASCII digits write. -/
def digitsValue (cs : List Char) : Nat :=
  cs.foldl (fun n c => 10 * n + (c.toNat - '0'.toNat)) 0

/-- Removes underscores; refused unless each stands between two digits. -/
def dropUnderscores (afterDigit : Bool) : List Char → Option (List Char)
  | [] => some []
  | '_' :: rest =>
    match rest with
    | d :: more =>
      if afterDigit && isDigit d then (dropUnderscores true more).map (d :: ·) else none
    | [] => none
  | c :: rest => (dropUnderscores (isDigit c) rest).map (c :: ·)

/-- The sign in front of a number, if there is one, and what follows it. -/
def splitSign : List Char → Bool × List Char
  | '-' :: rest => (true, rest)
  | '+' :: rest => (false, rest)
  | cs => (false, cs)

/-- The exponent part, from its mark on; `some 0` when there is none. -/
def readExponent : List Char → Option Int
  | [] => some 0
  | c :: rest =>
    if c = 'e' ∨ c = 'E' then
      let (negative, digits) := splitSign rest
      if digits.isEmpty || !digits.all isDigit then none
      else
        let n : Int := digitsValue digits
        some (if negative then -n else n)
    else none

/-- The fraction after a point, and what follows it. -/
def splitFraction : List Char → List Char × List Char
  | '.' :: rest => (rest.takeWhile isDigit, rest.dropWhile isDigit)
  | cs => ([], cs)

/-- An unsigned number: digits, a fraction and an exponent, with a digit before or after the point. -/
def readMagnitude (negative : Bool) (cs : List Char) : Option Binary64 :=
  let whole := cs.takeWhile isDigit
  let (fraction, rest) := splitFraction (cs.dropWhile isDigit)
  if whole.isEmpty && fraction.isEmpty then none
  else
    (readExponent rest).map fun e =>
      Binary64.ofDecimal negative (digitsValue (whole ++ fraction)) (e - fraction.length)

/-- A signed number or one of the special names. What is no number here is another one than that of a JSON document, which
has mark 0. -/
def readSigned (cs : List Char) : Option Binary64 :=
  let (negative, body) := splitSign cs
  let name := body.map Char.toLower
  if name = "inf".toList ∨ name = "infinity".toList then some (.infinite negative)
  else if name = "nan".toList then some (.nan 1)
  else (dropUnderscores false body).bind (readMagnitude negative)

/-- Blanks that may stand around a number: all but the four separator controls. -/
def isMargin (c : Char) : Bool := Text.isBlank c && !(0x1c ≤ c.toNat && c.toNat ≤ 0x1f)

/-- The characters between the blanks around a number, with digits of any script as ASCII digits. -/
def content (cs : List Char) : List Char :=
  ((cs.dropWhile isMargin).reverse.dropWhile isMargin).reverse.map Text.plainDigit

/-- The floating-point number that a text writes. -/
def readReal (cs : List Char) : Option Binary64 := readSigned (content cs)

/-- The sign and the digits of an integer at the front of a text, and what follows them. -/
def splitInt (cs : List Char) : Option (Bool × List Char × List Char) :=
  let (negative, body) := splitSign (content cs)
  let inRun (c : Char) : Bool := isDigit c || c = '_'
  match dropUnderscores false (body.takeWhile inRun) with
  | some digits => if digits.isEmpty then none else some (negative, digits, body.dropWhile inRun)
  | none => none

/-- The integer of a sign and ASCII digits. -/
def signedValue (negative : Bool) (digits : List Char) : Int :=
  let n : Int := digitsValue digits
  if negative then -n else n

/-- The integer that a text writes. -/
def readInt (cs : List Char) : Option Int :=
  match splitInt cs with
  | some (negative, digits, []) => some (signedValue negative digits)
  | _ => none

end BlockFlow.Number
