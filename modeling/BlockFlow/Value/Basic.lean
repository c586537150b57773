import BlockFlow.Number.Layout
import BlockFlow.Text.Quoted

/-!
Dynamic values. Parameters, identifiers and document fields are not typed by the program: whatever a
document holds is kept, shown and written back.

* `Value`: the values, with dictionaries as entries in insertion order.
* `Value.Kind`, `Value.kind`: the sort of a value, by the name that messages use.
* `Value.truthy`: whether a value counts as given.
* `Value.inspect`, `Value.display`: a value shown inside of another one, and shown alone.
-/

namespace BlockFlow

/-- A value of a parameter, an identifier or a document field. -/
inductive Value where
  | null
  | bool (b : Bool)
  | int (n : Int)
  | real (x : Binary64)
  | text (s : String)
  | bytes (bs : List UInt8)
  | list (items : List Value)
  | tuple (items : List Value)
  | dict (entries : List (Value × Value))
  deriving Inhabited

/-- The decimal digits of an integer behind its sign. -/
def intChars (n : Int) : List Char :=
  if n < 0 then '-' :: Nat.toDigits 10 n.natAbs else Nat.toDigits 10 n.natAbs

/-- An integer in full. There is no bound on its digits, other than where one is read. -/
def intText (n : Int) : String := String.ofList (intChars n)

namespace Value

/-- The sort of a value. -/
inductive Kind where
  | null
  | bool
  | int
  | real
  | text
  | bytes
  | list
  | tuple
  | dict
  deriving DecidableEq, Repr

/-- The name of a sort of values in messages. -/
def Kind.name : Kind → String
  | .null => "NoneType"
  | .bool => "bool"
  | .int => "int"
  | .real => "float"
  | .text => "str"
  | .bytes => "bytes"
  | .list => "list"
  | .tuple => "tuple"
  | .dict => "dict"

def kind : Value → Kind
  | .null => .null
  | .bool _ => .bool
  | .int _ => .int
  | .real _ => .real
  | .text _ => .text
  | .bytes _ => .bytes
  | .list _ => .list
  | .tuple _ => .tuple
  | .dict _ => .dict

/-- A value counts as given unless it is nothing, false, a zero or empty. -/
def truthy : Value → Bool
  | .null => false
  | .bool b => b
  | .int n => n ≠ 0
  | .real x => !x.isZero
  | .text s => !s.isEmpty
  | .bytes bs => !bs.isEmpty
  | .list xs => !xs.isEmpty
  | .tuple xs => !xs.isEmpty
  | .dict es => !es.isEmpty

/-- The value itself if it counts as given, else the other one. -/
def orElse (v other : Value) : Value := if v.truthy then v else other

mutual

/-- A value as it is shown inside of another one: texts between quotes. -/
def inspect : Value → String
  | .null => "None"
  | .bool b => if b then "True" else "False"
  | .int n => intText n
  | .real x => Layout.plain.write x
  | .text s => Text.quoted s
  | .bytes bs => Text.quotedBytes bs
  | .list xs => "[" ++ ", ".intercalate (inspectAll xs) ++ "]"
  | .tuple xs =>
    match inspectAll xs with
    | [x] => "(" ++ x ++ ",)"
    | shown => "(" ++ ", ".intercalate shown ++ ")"
  | .dict es => "\x7b" ++ ", ".intercalate (inspectEntries es) ++ "\x7d"

def inspectAll : List Value → List String
  | [] => []
  | v :: rest => inspect v :: inspectAll rest

def inspectEntries : List (Value × Value) → List String
  | [] => []
  | (k, v) :: rest => (inspect k ++ ": " ++ inspect v) :: inspectEntries rest

end

/-- A value as it is shown alone: a text is its own characters. -/
def display : Value → String
  | .text s => s
  | v => v.inspect

/-- A dictionary from texts to values. -/
def object (fields : List (String × Value)) : Value := .dict (fields.map fun f => (.text f.1, f.2))

end Value

end BlockFlow
