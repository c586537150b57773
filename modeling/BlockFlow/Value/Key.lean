import BlockFlow.Fault

/-!
Values as keys. Numbers of equal size are one key whatever their sort, so keys are a type of their own in which
equality is plain equality; lists and dictionaries are no keys.

* `Key`, `Value.key`: the keys and the key of a value.
* `Value.same`: the equality by which a container finds a value; `Value.equal`: the same, except that the value
  that is no number differs from itself.
* `Entries.get?`, `Entries.insert`: dictionaries by key, in insertion order.
-/

namespace BlockFlow

/-- A key. A tuple is a chain of `pair`s that ends in `unit`. -/
inductive Key where
  | null
  | int (n : Int)
  | real (x : Binary64)
  | text (s : String)
  | bytes (bs : List UInt8)
  | unit
  | pair (first rest : Key)
  deriving DecidableEq, Inhabited

namespace Key

/-- The key of a number: an integer if it is one. -/
def ofReal (x : Binary64) : Key :=
  match x.toInt? with
  | some n => .int n
  | none => .real x

/-- A value with this key. -/
def toValue : Key → Value
  | .null => .null
  | .int n => .int n
  | .real x => .real x
  | .text s => .text s
  | .bytes bs => .bytes bs
  | .unit => .tuple []
  | .pair a b =>
    match b.toValue with
    | .tuple items => .tuple (a.toValue :: items)
    | _ => .tuple [a.toValue]

end Key

namespace Value

/-- The key of a value that is not a container. -/
def atom? : Value → Option Key
  | .null => some .null
  | .bool b => some (.int (if b then 1 else 0))
  | .int n => some (.int n)
  | .real x => some (Key.ofReal x)
  | .text s => some (.text s)
  | .bytes bs => some (.bytes bs)
  | _ => none

mutual

/-- The key of a value. -/
def key : Value → Except Fault Key
  | .list _ => .error (.unhashable .list)
  | .dict _ => .error (.unhashable .dict)
  | .tuple items => keyOfAll items
  | .null => .ok .null
  | .bool b => .ok (.int (if b then 1 else 0))
  | .int n => .ok (.int n)
  | .real x => .ok (Key.ofReal x)
  | .text s => .ok (.text s)
  | .bytes bs => .ok (.bytes bs)

def keyOfAll : List Value → Except Fault Key
  | [] => .ok .unit
  | v :: rest =>
    match key v with
    | .error f => .error f
    | .ok a =>
      match keyOfAll rest with
      | .error f => .error f
      | .ok b => .ok (.pair a b)

end

mutual

/-- The equality by which a container finds a value. -/
def same : Value → Value → Bool
  | .list xs, b =>
    match b with
    | .list ys => sameAll xs ys
    | _ => false
  | .tuple xs, b =>
    match b with
    | .tuple ys => sameAll xs ys
    | _ => false
  | .dict es, b =>
    match b with
    | .dict fs => es.length == fs.length && sameEntries es fs
    | _ => false
  | .null, b => b.atom? == some .null
  | .bool p, b => b.atom? == some (.int (if p then 1 else 0))
  | .int n, b => b.atom? == some (.int n)
  | .real x, b => b.atom? == some (Key.ofReal x)
  | .text s, b => b.atom? == some (.text s)
  | .bytes bs, b => b.atom? == some (.bytes bs)

def sameAll : List Value → List Value → Bool
  | [], ys => ys.isEmpty
  | x :: xs, ys =>
    match ys with
    | [] => false
    | y :: rest => same x y && sameAll xs rest

/-- Every entry of the first list is one of the second, in any order. -/
def sameEntries : List (Value × Value) → List (Value × Value) → Bool
  | [], _ => true
  | (k, v) :: es, fs => (fs.any fun f => same k f.1 && same v f.2) && sameEntries es fs

end

def isNan : Value → Bool
  | .real x => x.isNan
  | _ => false

/-- Equality of values. -/
def equal (a b : Value) : Bool := same a b && !a.isNan

/-- The value is this text. -/
def isText (v : Value) (s : String) : Bool :=
  match v with
  | .text t => t == s
  | _ => false

end Value

namespace Entries

/-- The value under a key of the same size. -/
def get? (entries : List (Value × Value)) (k : Value) : Option Value :=
  (entries.find? fun e => Value.same e.1 k).map (·.2)

/-- The value under a text. -/
def field? (entries : List (Value × Value)) (name : String) : Option Value := get? entries (.text name)

/-- The value under a text, or the other value. -/
def fieldD (entries : List (Value × Value)) (name : String) (other : Value) : Value :=
  (field? entries name).getD other

def contains (entries : List (Value × Value)) (k : Value) : Bool := entries.any fun e => Value.same e.1 k

/-- Puts a value under a key: in the place of an old one, else at the end. -/
def insert (entries : List (Value × Value)) (k v : Value) : List (Value × Value) :=
  if contains entries k then entries.map fun e => if Value.same e.1 k then (e.1, v) else e
  else entries ++ [(k, v)]

end Entries

end BlockFlow
