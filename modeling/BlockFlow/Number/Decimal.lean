import BlockFlow.Number.Binary64

/-!
Decimal forms of a binary number: the shortest one that reads back, and the one rounded to a given
count of significant digits.

* `Decimal`: a coefficient times a power of ten.
* `Binary64.shortest`: the fewest digits that read back as the number; of several such forms the
  nearest, a tie going to the even coefficient.
* `Binary64.rounded`: a fixed count of significant digits, a tie going to the even coefficient.
-/

namespace BlockFlow

/-- `coefficient * 10 ^ exponent`. -/
structure Decimal where
  coefficient : Nat
  exponent : Int
  deriving DecidableEq, Repr

namespace Decimal

/-- Drops trailing zeros of the coefficient, at most as many as the first argument says. -/
def trimBy : Nat → Decimal → Decimal
  | 0, d => d
  | fuel + 1, d =>
    if d.coefficient ≠ 0 ∧ d.coefficient % 10 = 0 then
      trimBy fuel ⟨d.coefficient / 10, d.exponent + 1⟩
    else d

/-- The form without trailing zeros. -/
def trim (d : Decimal) : Decimal := trimBy (Nat.toDigits 10 d.coefficient).length d

/-- The digits of the coefficient, most significant first. -/
def digits (d : Decimal) : List Char := Nat.toDigits 10 d.coefficient

/-- The power of ten of the first digit. -/
def leading (d : Decimal) : Int := d.exponent + (d.digits.length : Int) - 1

end Decimal

/-- The least `k` with `num / den < 10 ^ k`, for a positive quotient. -/
def decimalSize (num den : Nat) : Int :=
  let k : Int := ((Nat.toDigits 10 num).length : Int) - ((Nat.toDigits 10 den).length : Int)
  let above := if 0 ≤ k then den * Nat.pow 10 k.toNat ≤ num else den ≤ num * Nat.pow 10 (-k).toNat
  if above then k + 1 else k

/-- The quotient `num / den` in units of `10 ^ e`, as a fraction. -/
def inUnits (num den : Nat) (e : Int) : Nat × Nat :=
  if 0 ≤ e then (num, den * Nat.pow 10 e.toNat) else (num * Nat.pow 10 (-e).toNat, den)

namespace Binary64

/-- The two neighbours of `num / den` on the grid of `n` significant digits, the nearer first. -/
def neighbours (num den n : Nat) : List Decimal :=
  let e := decimalSize num den - n
  let (a, b) := inUnits num den e
  let nearest := roundHalfEven a b
  let other := if nearest = a / b then nearest + 1 else a / b
  [⟨nearest, e⟩, ⟨other, e⟩]

/-- Every digit of a binary fraction: dividing by two is multiplying by five and dividing by ten. -/
def exact (mantissa : Nat) (exponent : Int) : Decimal :=
  if 0 ≤ exponent then ⟨mantissa * Nat.pow 2 exponent.toNat, 0⟩
  else ⟨mantissa * Nat.pow 5 (-exponent).toNat, exponent⟩

/-- The fewest digits that read back as the number. -/
def shortest : Binary64 → Decimal
  | .finite s m e h =>
    if m = 0 then ⟨0, 0⟩
    else
      let (num, den) := if 0 ≤ e then (m * Nat.pow 2 e.toNat, 1) else (m, Nat.pow 2 (-e).toNat)
      let readsBack (d : Decimal) : Bool := ofDecimal s d.coefficient d.exponent = .finite s m e h
      let found := (List.range 17).findSome? fun n => (neighbours num den (n + 1)).find? readsBack
      (found.getD (exact m e)).trim
  | _ => ⟨0, 0⟩

/-- The number rounded to `n` significant digits. -/
def rounded (n : Nat) : Binary64 → Decimal
  | .finite _ m e _ =>
    if m = 0 then ⟨0, 0⟩
    else
      let (num, den) := if 0 ≤ e then (m * Nat.pow 2 e.toNat, 1) else (m, Nat.pow 2 (-e).toNat)
      let unit := decimalSize num den - n
      let (a, b) := inUnits num den unit
      (Decimal.mk (roundHalfEven a b) unit).trim
  | _ => ⟨0, 0⟩

end Binary64

end BlockFlow
