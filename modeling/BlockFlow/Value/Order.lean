import BlockFlow.Sorting
import BlockFlow.Value.Key

/-!
The order of values. Numbers are compared by size, texts by code point, lists and tuples by their first
difference; values of unlike sorts have no order.

* `Value.less`: the order, which faults where there is none.
* `Value.sort`: sorting by it. The fault names the first pair compared in vain.
-/

namespace BlockFlow

/-- The size of a number. -/
inductive Magnitude where
  | nan
  | infinite (negative : Bool)
  | ratio (num : Int) (den : Nat)

namespace Magnitude

def ofReal (x : Binary64) : Magnitude :=
  match x with
  | .nan _ => .nan
  | .infinite s => .infinite s
  | .finite .. =>
    match x.ratio? with
    | some (n, d) => .ratio n d
    | none => .nan

def less : Magnitude → Magnitude → Bool
  | .nan, _ => false
  | _, .nan => false
  | .infinite s, .infinite t => s && !t
  | .infinite s, .ratio _ _ => s
  | .ratio _ _, .infinite t => !t
  | .ratio a b, .ratio c d => a * d < c * b

end Magnitude

/-- Comparison of byte strings by their first difference. -/
def bytesLess : List UInt8 → List UInt8 → Bool
  | _, [] => false
  | [], _ :: _ => true
  | a :: as, b :: bs => a < b || (a == b && bytesLess as bs)

namespace Value

/-- The size of a value that is a number. -/
def magnitude? : Value → Option Magnitude
  | .bool b => some (.ratio (if b then 1 else 0) 1)
  | .int n => some (.ratio n 1)
  | .real x => some (Magnitude.ofReal x)
  | _ => none

/-- Order of two values that are not containers. -/
def atomLess (a b : Value) : Except Fault Bool :=
  match a, b with
  | .text s, .text t => .ok (s < t)
  | .bytes s, .bytes t => .ok (bytesLess s t)
  | _, _ =>
    match a.magnitude?, b.magnitude? with
    | some x, some y => .ok (x.less y)
    | _, _ => .error (.notOrdered a.kind b.kind)

mutual

/-- The first value comes before the second. -/
def less : Value → Value → Except Fault Bool
  | .list xs, b =>
    match b with
    | .list ys => lessAll xs ys
    | _ => .error (.notOrdered .list b.kind)
  | .tuple xs, b =>
    match b with
    | .tuple ys => lessAll xs ys
    | _ => .error (.notOrdered .tuple b.kind)
  | a, b => atomLess a b

def lessAll : List Value → List Value → Except Fault Bool
  | [], ys => .ok (!ys.isEmpty)
  | x :: xs, ys =>
    match ys with
    | [] => .ok false
    | y :: rest => if same x y then lessAll xs rest else less x y

end

/-- The texts of a list of texts. -/
def texts? (xs : List Value) : Option (List String) :=
  xs.mapM fun
    | .text s => some s
    | _ => none

/-- Sorts values. Texts are in order with each other, so only for other values it matters what is compared. -/
def sort (xs : List Value) : Except Fault (List Value) :=
  match texts? xs with
  | some ss => .ok ((ss.mergeSort fun s t => s ≤ t).map .text)
  | none => Sorting.sortBy less xs

end Value

end BlockFlow
