import BlockFlow.Number.Read
import BlockFlow.Value.Key

/-!
Reading values: as numbers, as lists, as dictionaries, by index and by key. Each reader accepts more than one
sort of value and faults on the others.

* `Value.toReal`, `Value.isNumeric`: numbers, also those written as text.
* `Value.toList`, `Value.toEntries`, `Value.mergeInto`: what is iterable, and what is made of pairs.
* `Value.item`, `Value.nth`, `Value.contains`, `Value.assign`: parts of a value.
* `Value.get`, `Value.require`: fields of a dictionary.
-/

namespace BlockFlow

namespace Value

/-- Bytes that can stand in a number: those of ASCII. -/
def isNumberByte (b : UInt8) : Bool := b < 0x80

/-- A value as a floating-point number. -/
def toReal (v : Value) : Except Fault Binary64 :=
  match v with
  | .real x => .ok x
  | .bool b => .ok (Binary64.ofRatio false (if b then 1 else 0) 1)
  | .int n =>
    match Binary64.ofInt? n with
    | some x => .ok x
    | none => .error .tooLarge
  | .text s =>
    match Number.readReal s.toList with
    | some x => .ok x
    | none => .error (.unreadableNumber v)
  | .bytes bs =>
    match if bs.all isNumberByte then Number.readReal (bs.map fun b => Char.ofNat b.toNat) else none with
    | some x => .ok x
    | none => .error (.unreadableNumber v)
  | _ => .error (.notNumber v.kind)

/-- A value that is a number or writes one. Truth values are not numbers here. -/
def isNumeric (v : Value) : Bool :=
  match v with
  | .bool _ => false
  | .int _ | .real _ => true
  | _ =>
    match v.toReal with
    | .ok _ => true
    | .error _ => false

/-- The parts of a value that is iterable: characters of a text, keys of a dictionary. -/
def parts? : Value → Option (List Value)
  | .list xs => some xs
  | .tuple xs => some xs
  | .text s => some (s.toList.map fun c => .text (String.ofList [c]))
  | .bytes bs => some (bs.map fun b => .int b.toNat)
  | .dict es => some (es.map (·.1))
  | _ => none

/-- A value as a list of its parts. -/
def toList (v : Value) : Except Fault (List Value) :=
  match v.parts? with
  | some xs => .ok xs
  | none => .error (.notIterable v.kind)

/-- Puts a value under a key into a dictionary. -/
def insertEntry (entries : List (Value × Value)) (k v : Value) : Except Fault (List (Value × Value)) :=
  match k.key with
  | .ok _ => .ok (Entries.insert entries k v)
  | .error f => .error f

/-- Reads one element as a pair. -/
def toPair (position : Nat) (v : Value) : Except Fault (Value × Value) :=
  match v.parts? with
  | none => .error (.notPair position)
  | some [a, b] => .ok (a, b)
  | some xs => .error (.pairLength position xs.length)

/-- Puts pairs into a dictionary one after the other. The pairs before a fault stay. -/
def mergePairs (entries : List (Value × Value)) (position : Nat) :
    List Value → List (Value × Value) × Except Fault Unit
  | [] => (entries, .ok ())
  | v :: rest =>
    match toPair position v with
    | .error f => (entries, .error f)
    | .ok (a, b) =>
      match insertEntry entries a b with
      | .error f => (entries, .error f)
      | .ok more => mergePairs more (position + 1) rest

/-- Puts the entries of a value, a dictionary or a list of pairs, into a dictionary. -/
def mergeInto (entries : List (Value × Value)) (v : Value) : List (Value × Value) × Except Fault Unit :=
  match v with
  | .dict es => (es.foldl (fun acc e => Entries.insert acc e.1 e.2) entries, .ok ())
  | _ =>
    match v.parts? with
    | none => (entries, .error (.notIterable v.kind))
    | some xs => mergePairs entries 0 xs

/-- A value as the entries of a new dictionary. -/
def toEntries (v : Value) : Except Fault (List (Value × Value)) :=
  match v with
  | .dict es => .ok es
  | _ =>
    match mergeInto [] v with
    | (es, .ok _) => .ok es
    | (_, .error f) => .error f

/-- The element of a list at an index, counted from the end if negative. -/
def pick? {α : Type} (xs : List α) (i : Int) : Option α :=
  if 0 ≤ i then xs[i.toNat]?
  else if 0 ≤ i + xs.length then xs[(i + xs.length).toNat]?
  else none

/-- A value as an integer. -/
def index? : Value → Option Int
  | .int n => some n
  | .bool b => some (if b then 1 else 0)
  | _ => none

/-- Integers of 64 bits. -/
def isWord (n : Int) : Bool := -Int.pow 2 63 ≤ n && n < Int.pow 2 63

/-- An integer as an index, which has 64 bits. -/
def toIndex (n : Int) : Except Fault Int := if isWord n then .ok n else .error .indexTooLarge

/-- The part of a value at a key or an index. -/
def item (v k : Value) : Except Fault Value :=
  match v with
  | .dict es =>
    match k.key with
    | .error f => .error f
    | .ok _ =>
      match Entries.get? es k with
      | some x => .ok x
      | none => .error (.missingKey k)
  | .list _ | .tuple _ | .text _ | .bytes _ =>
    match k.index? with
    | none => .error (.badIndex v.kind k.kind)
    | some n => do
      match pick? ((v.parts?).getD []) (← toIndex n) with
      | some x => .ok x
      | none => .error (.outOfRange v.kind)
  | _ => .error (.notSubscriptable v.kind)

/-- The part of a value at a position. -/
def nth (v : Value) (position : Nat) : Except Fault Value := v.item (.int position)

/-- One text is a part of another. -/
def isInfix (needle : List Char) : List Char → Bool
  | [] => needle.isEmpty
  | c :: rest => needle.isPrefixOf (c :: rest) || isInfix needle rest

/-- Whether a value is found in a container. -/
def contains (container v : Value) : Except Fault Bool :=
  match container with
  | .dict es =>
    match v.key with
    | .error f => .error f
    | .ok _ => .ok (Entries.contains es v)
  | .list xs | .tuple xs => .ok (xs.any fun x => same x v)
  | .text s =>
    match v with
    | .text t => .ok (isInfix t.toList s.toList)
    | _ => .error (.textSearch v.kind)
  | .bytes bs =>
    match v.index? with
    | some n => if 0 ≤ n && n < 256 then .ok (bs.any fun b => (b.toNat : Int) == n) else .error .byteOutOfRange
    | none =>
      match v with
      | .bytes cs =>
        .ok (isInfix (cs.map fun b => Char.ofNat b.toNat) (bs.map fun b => Char.ofNat b.toNat))
      | _ => .error (.bytesSearch v.kind)
  | _ => .error (.notSearchable container.kind)

/-- A list with the element at an index replaced. -/
def replaceAt (xs : List Value) (i : Int) (v : Value) : Except Fault (List Value) :=
  let position := if 0 ≤ i then i else i + xs.length
  if 0 ≤ position ∧ position < xs.length then .ok (xs.set position.toNat v)
  else .error .assignmentOutOfRange

/-- A container with a value put under a key or an index. -/
def assign (container k v : Value) : Except Fault Value :=
  match container with
  | .dict es => (insertEntry es k v).map .dict
  | .list xs =>
    match k.index? with
    | some n => do return .list (← replaceAt xs (← toIndex n) v)
    | none => .error (.badIndex .list k.kind)
  | .tuple _ | .text _ | .bytes _ => do
    if let some n := k.index? then
      let _ ← toIndex n
    .error (.notAssignable container.kind)
  | _ => .error (.notAssignable container.kind)

/-- The entries of a value that has to be a dictionary; the fault names what was asked of it. -/
def entriesFor (v : Value) (purpose : String) : Except Fault (List (Value × Value)) :=
  match v with
  | .dict es => .ok es
  | _ => .error (.noAttribute v.kind purpose)

/-- The field of a dictionary, or the other value. -/
def get (v : Value) (name : String) (other : Value) : Except Fault Value :=
  match v.entriesFor "get" with
  | .ok es => .ok (Entries.fieldD es name other)
  | .error f => .error f

/-- The field of a dictionary, which has to be there. -/
def require (v : Value) (name : String) : Except Fault Value := v.item (.text name)

def isDict : Value → Bool
  | .dict _ => true
  | _ => false

end Value

end BlockFlow
