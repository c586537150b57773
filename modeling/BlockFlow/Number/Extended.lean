import BlockFlow.Number.Decimal

/-!
Arithmetic with 64 bits of precision and exponents without bound, and the fifteen leading digits of a number found by it.

* `Extended`, `Extended.ofRatio`: the numbers, and the one nearest to a quotient.
* `Extended.add`, `Extended.mul`, `Extended.div`, `Extended.lower`: operations, each rounded once.
* `Binary64.leading15`: the number is scaled to one digit before the point, half a unit of the last digit is added, and
  fifteen digits are cut off. All of it is rounded on the way, so a tie may go either way.
-/

namespace BlockFlow

/-- `mantissa * 2 ^ exponent`, not negative. -/
structure Extended where
  mantissa : Nat
  exponent : Int

namespace Extended

/-- The number as a fraction with positive denominator. -/
def ratio (x : Extended) : Nat × Nat :=
  if 0 ≤ x.exponent then (x.mantissa * Nat.pow 2 x.exponent.toNat, 1) else (x.mantissa, Nat.pow 2 (-x.exponent).toNat)

/-- The number nearest to `num / den`, a tie going to the even mantissa. -/
def ofRatio (num den : Nat) : Extended :=
  if num = 0 then ⟨0, 0⟩
  else
    let low : Int := (num.log2 : Int) - (den.log2 : Int) - 64
    let (n, d) := Binary64.scale num den low
    let e := if n / d < Nat.pow 2 64 then low else low + 1
    let (n, d) := Binary64.scale num den e
    ⟨roundHalfEven n d, e⟩

/-- A power of ten, or another decimal, as it is first rounded to 53 bits. -/
def ofDecimal (coefficient : Nat) (exponent : Int) : Extended :=
  match Binary64.ofDecimal false coefficient exponent with
  | .finite _ m e _ => ⟨m, e⟩
  | _ => ⟨0, 0⟩

def add (x y : Extended) : Extended :=
  let (a, b) := x.ratio
  let (c, d) := y.ratio
  ofRatio (a * d + c * b) (b * d)

def mul (x y : Extended) : Extended :=
  let (a, b) := x.ratio
  let (c, d) := y.ratio
  ofRatio (a * c) (b * d)

def div (x y : Extended) : Extended :=
  let (a, b) := x.ratio
  let (c, d) := y.ratio
  ofRatio (a * d) (b * c)

/-- The first number is below the second. -/
def below (x y : Extended) : Bool :=
  let (a, b) := x.ratio
  let (c, d) := y.ratio
  a * d < c * b

def one : Extended := ⟨1, 0⟩

def ten : Extended := ⟨10, 0⟩

/-- Takes a power of ten, `10 ^ k`, into the scale as long as the scale does not pass the number. -/
def widen (x : Extended) (k : Nat) : Nat → Extended → Int → Extended × Int
  | 0, scale, e => (scale, e)
  | fuel + 1, scale, e =>
    let next := (ofDecimal 1 k).mul scale
    if x.below next then (scale, e) else widen x k fuel next (e + k)

/-- Multiplies a number by `10 ^ k` until it is not below the bound. -/
def lift (bound : Extended) (k : Nat) : Nat → Extended → Int → Extended × Int
  | 0, x, e => (x, e)
  | fuel + 1, x, e => if x.below bound then lift bound k fuel (x.mul (ofDecimal 1 k)) (e - k) else (x, e)

/-- A number between one and ten, and the power of ten that was taken out. The bounds on the steps are those of all finite
numbers. -/
def scaled (x : Extended) : Extended × Int :=
  let (scale, e) := widen x 100 4 one 0
  let (scale, e) := widen x 10 10 scale e
  let (scale, e) := widen x 1 10 scale e
  let (x, e) := lift (ofDecimal 1 (-8)) 8 41 (x.div scale) e
  lift one 1 10 x e

/-- The first digit of a number below ten, and the number without it, times ten. -/
def lower (x : Extended) : Nat × Extended :=
  let (a, b) := x.ratio
  (a / b, (ofRatio (a % b) b).mul ten)

/-- So many digits of a number below ten, behind those that are there. -/
def cut : Nat → Nat → Extended → Nat
  | 0, digits, _ => digits
  | n + 1, digits, x =>
    let (digit, rest) := x.lower
    cut n (digits * 10 + digit) rest

/-- Half a unit of the fifteenth digit: `5e-5` times `1e-10`, the product rounded to 53 bits. -/
def halfUnit : Extended :=
  let (a, b) := (ofDecimal 5 (-5)).ratio
  let (c, d) := (ofDecimal 1 (-10)).ratio
  match Binary64.ofRatio false (a * c) (b * d) with
  | .finite _ m e _ => ⟨m, e⟩
  | _ => ⟨0, 0⟩

end Extended

/-- The fifteen leading digits of a number. -/
def Binary64.leading15 : Binary64 → Decimal
  | .finite _ m e _ =>
    if m = 0 then ⟨0, 0⟩
    else
      let (x, k) := Extended.scaled ⟨m, e⟩
      let x := x.add Extended.halfUnit
      let (x, k) := if x.below .ten then (x, k) else (x.mul (.ofDecimal 1 (-1)), k + 1)
      (Decimal.mk (x.cut 15 0) (k - 14)).trim
  | _ => ⟨0, 0⟩

end BlockFlow
