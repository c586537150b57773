import BlockFlow.Value.Access

/-!
Table cells. A text column keeps texts and bytes as they are and writes numbers as text.

* `Cell`, `Cell.ofValue`: what a column holds, and the cell of a value.
* `Cell.holds`: equality of cells, by which rows are found; an empty cell equals nothing.
* `Cell.before`: the order of cells, by code point.
-/

namespace BlockFlow

/-- What a text column holds. -/
inductive Cell where
  | null
  | text (s : String)
  | blob (bs : List UInt8)
  deriving DecidableEq

namespace Cell

/-- The cell of a value; the position is the one that the value has in its statement. -/
def ofValue (position : Nat) : Value → Except Fault Cell
  | .null => .ok .null
  | .bool b => .ok (.text (if b then "1" else "0"))
  | .int n => if Value.isWord n then .ok (.text (intText n)) else .error .columnTooLarge
  | .real x => .ok (if x.isNan then .null else .text (Layout.column.write x))
  | .text s => .ok (.text s)
  | .bytes bs => .ok (.blob bs)
  | v => .error (.unsupportedCell position v.kind)

def toValue : Cell → Value
  | .null => .null
  | .text s => .text s
  | .blob bs => .bytes bs

def isNull : Cell → Bool
  | .null => true
  | _ => false

/-- Two cells hold the same. -/
def holds (a b : Cell) : Bool := !a.isNull && a == b

/-- Comparison of byte strings by their first difference. -/
def blobBefore : List UInt8 → List UInt8 → Bool
  | _, [] => false
  | [], _ :: _ => true
  | a :: as, b :: bs => a < b || (a == b && blobBefore as bs)

/-- The first cell comes before the second: empty cells, then texts, then bytes. -/
def before : Cell → Cell → Bool
  | .null, b => !b.isNull
  | .text s, .text t => s < t
  | .text _, .blob _ => true
  | .blob s, .blob t => blobBefore s t
  | _, _ => false

end Cell

end BlockFlow
