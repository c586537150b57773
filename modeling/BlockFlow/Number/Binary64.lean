/-!
Binary floating-point numbers with 53 bits of precision, kept as sign, mantissa and exponent so that
every operation on them is exact arithmetic on natural numbers and integers.

* `Binary64`: the numbers, the two infinities and the values that are no numbers.
* `Binary64.ofRatio`: the number nearest to a quotient, a tie going to the even mantissa.
* `Binary64.ofInt?`: the number nearest to an integer, when there is a finite one.
* `Binary64.ratio?`, `Binary64.toInt?`: back to exact arithmetic.
* `Binary64.add`, `Binary64.sub`: sum and difference, rounded.
-/

namespace BlockFlow

/-- The quotient rounded to the nearest integer, a tie going to the even neighbour. -/
def roundHalfEven (num den : Nat) : Nat :=
  let quotient := num / den
  let remainder := num % den
  if 2 * remainder < den then quotient
  else if den < 2 * remainder then quotient + 1
  else if quotient % 2 = 0 then quotient
  else quotient + 1

/-- Mantissa and exponent in their one normal form: 53 bits, or fewer at the least exponent. -/
def Normal (mantissa : Nat) (exponent : Int) : Prop :=
  mantissa < Nat.pow 2 53 ∧ -1074 ≤ exponent ∧ exponent ≤ 971 ∧ (Nat.pow 2 52 ≤ mantissa ∨ exponent = -1074)

instance (mantissa : Nat) (exponent : Int) : Decidable (Normal mantissa exponent) := by
  unfold Normal; infer_instance

/-- A binary floating-point number: `finite s m e` is `m * 2 ^ e`, negative when `s` holds. What is no number has a mark
that tells it from others of its sort. -/
inductive Binary64 where
  | nan (mark : Nat)
  | infinite (negative : Bool)
  | finite (negative : Bool) (mantissa : Nat) (exponent : Int) (normal : Normal mantissa exponent)
  deriving DecidableEq

namespace Binary64

/-- Zero, with its sign. -/
def zero (negative : Bool) : Binary64 := .finite negative 0 (-1074) (by decide)

instance : Inhabited Binary64 := ⟨zero false⟩

/-- The number of this mantissa and exponent, infinite when the pair is too large to be normal. -/
def pack (negative : Bool) (mantissa : Nat) (exponent : Int) : Binary64 :=
  if h : Normal mantissa exponent then .finite negative mantissa exponent h else .infinite negative

/-- The quotient `num / (den * 2 ^ e)` as one fraction of natural numbers. -/
def scale (num den : Nat) (e : Int) : Nat × Nat :=
  if 0 ≤ e then (num, den * Nat.pow 2 e.toNat) else (num * Nat.pow 2 (-e).toNat, den)

/-- The exponent at which the quotient has 53 bits before the point, not below the least one. -/
def exponentFor (num den : Nat) : Int :=
  let low := max ((num.log2 : Int) - (den.log2 : Int) - 53) (-1074)
  let (n, d) := scale num den low
  if n / d < Nat.pow 2 53 then low else low + 1

/-- The number nearest to `num / den`, a tie going to the even mantissa. -/
def ofRatio (negative : Bool) (num den : Nat) : Binary64 :=
  if num = 0 then zero negative
  else
    let e := exponentFor num den
    let (n, d) := scale num den e
    let m := roundHalfEven n d
    if m = Nat.pow 2 53 then pack negative (Nat.pow 2 52) (e + 1) else pack negative m e

/-- The number nearest to `coefficient * 10 ^ exponent`. Beyond the range of all finite numbers the
answer is known from the size of the coefficient alone. -/
def ofDecimal (negative : Bool) (coefficient : Nat) (exponent : Int) : Binary64 :=
  if coefficient = 0 then zero negative
  else
    let size : Int := (Nat.toDigits 10 coefficient).length + exponent
    if 310 < size then .infinite negative
    else if size < -325 then zero negative
    else if 0 ≤ exponent then ofRatio negative (coefficient * Nat.pow 10 exponent.toNat) 1
    else ofRatio negative coefficient (Nat.pow 10 (-exponent).toNat)

/-- The nearest number of an integer, if that is finite. -/
def ofInt? (n : Int) : Option Binary64 :=
  match ofRatio (decide (n < 0)) n.natAbs 1 with
  | .infinite _ => none
  | x => some x

/-- A finite number as an exact fraction with positive denominator. -/
def ratio? : Binary64 → Option (Int × Nat)
  | .finite s m e _ =>
    let (n, d) := if 0 ≤ e then (m * Nat.pow 2 e.toNat, 1) else (m, Nat.pow 2 (-e).toNat)
    some (if s then -(n : Int) else (n : Int), d)
  | _ => none

/-- The integer that a finite number without fraction is. -/
def toInt? (x : Binary64) : Option Int :=
  match x.ratio? with
  | some (n, d) => if n % d = 0 then some (n / d) else none
  | none => none

def isNan : Binary64 → Bool
  | .nan _ => true
  | _ => false

def isZero : Binary64 → Bool
  | .finite _ 0 _ _ => true
  | _ => false

def negate : Binary64 → Binary64
  | .nan mark => .nan mark
  | .infinite s => .infinite (!s)
  | .finite s m e h => .finite (!s) m e h

/-- The sum, rounded to the nearest number. Opposite infinities have none. -/
def add : Binary64 → Binary64 → Binary64
  | .nan mark, _ => .nan mark
  | _, .nan mark => .nan mark
  | .infinite s, .infinite t => if s = t then .infinite s else .nan 0
  | .infinite s, _ => .infinite s
  | _, .infinite t => .infinite t
  | x, y =>
    match x.ratio?, y.ratio? with
    | some (a, b), some (c, d) =>
      let n := a * d + c * b
      ofRatio (decide (n < 0)) n.natAbs (b * d)
    | _, _ => .nan 0

/-- The difference, rounded to the nearest number. -/
def sub (x y : Binary64) : Binary64 := x.add y.negate

/-- The number of a whole count of quarters, for durations measured on a clock of that grain. -/
def ofQuarters (n : Int) : Binary64 := ofRatio (decide (n < 0)) n.natAbs 4

end Binary64

end BlockFlow
