import BlockFlow.Value.Order

/-!
Values written as JSON text. Characters stand for themselves except quotes, backslashes and controls.

Integers are written with all their digits. The reader takes at most 4300 of them, so a value that was read from a document
has no longer integer in it, and all that is written of such values is within the bound. Only an integer that is handed over
as a value can be longer. A host that bounds the digits it writes as well refuses it here; that bound is one of the host and
not of the format, and is left out: such an integer is written, and the reader refuses the text.

* `Json.compact`: on one line.
* `Json.indented`: one entry or element a line, two blanks deeper at each level.
* `Json.normal`: the value that a reader of the text gets, with the keys in order.
-/

namespace BlockFlow.Json

/-- One character of a text between quotes. -/
def escapeChar (c : Char) : List Char :=
  if c = '\x22' then ['\\', '\x22']
  else if c = '\\' then ['\\', '\\']
  else if c = '\n' then ['\\', 'n']
  else if c = '\r' then ['\\', 'r']
  else if c = '\t' then ['\\', 't']
  else if c.toNat = 0x8 then ['\\', 'b']
  else if c.toNat = 0xc then ['\\', 'f']
  else if c.toNat < 0x20 then '\\' :: 'u' :: Text.hexDigits 4 c.toNat
  else [c]

/-- The characters of a text between double quotes. -/
def quoteChars (cs : List Char) : List Char := '\x22' :: cs.flatMap escapeChar ++ ['\x22']

/-- A text between double quotes. -/
def quote (s : String) : String := String.ofList (quoteChars s.toList)

/-- The text that stands for a key. -/
def keyText : Value → Except Fault String
  | .text s => .ok s
  | .null => .ok "null"
  | .bool b => .ok (if b then "true" else "false")
  | .int n => .ok (intText n)
  | .real x => .ok (Layout.json.write x)
  | v => .error (.badKey v.kind)

/-- A value that is not a container. -/
def scalar : Value → Except Fault String
  | .null => .ok "null"
  | .bool b => .ok (if b then "true" else "false")
  | .int n => .ok (intText n)
  | .real x => .ok (Layout.json.write x)
  | .text s => .ok (quote s)
  | v => .error (.notWritable v.kind)

mutual

/-- A value on one line. -/
def compact : Value → Except Fault String
  | .list xs => do return "[" ++ ", ".intercalate (← compactAll xs) ++ "]"
  | .tuple xs => do return "[" ++ ", ".intercalate (← compactAll xs) ++ "]"
  | .dict es => do return "\x7b" ++ ", ".intercalate (← compactEntries es) ++ "\x7d"
  | v => scalar v

def compactAll : List Value → Except Fault (List String)
  | [] => .ok []
  | v :: rest => do
    let first ← compact v
    return first :: (← compactAll rest)

def compactEntries : List (Value × Value) → Except Fault (List String)
  | [] => .ok []
  | (k, v) :: rest => do
    let name ← keyText k
    let first ← compact v
    return (quote name ++ ": " ++ first) :: (← compactEntries rest)

end

/-- A line break and the blanks of a level. -/
def breakAt (level : Nat) : String := "\n" ++ String.ofList (List.replicate (2 * level) ' ')

/-- Items between brackets, each on a line of its own. -/
def block (opening closing : String) (level : Nat) (items : List String) : String :=
  if items.isEmpty then opening ++ closing
  else
    opening ++ breakAt (level + 1) ++ ("," ++ breakAt (level + 1)).intercalate items ++ breakAt level ++ closing

mutual

/-- A value over several lines, at a level of indentation. -/
def indentedAt (level : Nat) : Value → Except Fault String
  | .list xs => do return block "[" "]" level (← indentedAll (level + 1) xs)
  | .tuple xs => do return block "[" "]" level (← indentedAll (level + 1) xs)
  | .dict es => do return block "\x7b" "\x7d" level (← indentedEntries (level + 1) es)
  | v => scalar v

def indentedAll (level : Nat) : List Value → Except Fault (List String)
  | [] => .ok []
  | v :: rest => do
    let first ← indentedAt level v
    return first :: (← indentedAll level rest)

def indentedEntries (level : Nat) : List (Value × Value) → Except Fault (List String)
  | [] => .ok []
  | (k, v) :: rest => do
    let name ← keyText k
    let first ← indentedAt level v
    return (quote name ++ ": " ++ first) :: (← indentedEntries level rest)

end

/-- A value over several lines. -/
def indented (v : Value) : Except Fault String := indentedAt 0 v

mutual

/-- The value that a reader gets from the text of a value whose keys are sorted: tuples are lists and all keys are
texts. Keys of unlike sorts cannot be sorted. -/
def normal : Value → Except Fault Value
  | .list xs => do return .list (← normalAll xs)
  | .tuple xs => do return .list (← normalAll xs)
  | .dict es => do
    let sorted ← Sorting.sortBy (fun a b => Value.less a.1 b.1) (normalEntries es)
    return .dict (← sorted.mapM (·.2))
  | .bytes bs => .error (.notWritable (Value.bytes bs).kind)
  | v => .ok v

def normalAll : List Value → Except Fault (List Value)
  | [] => .ok []
  | v :: rest => do
    let first ← normal v
    return first :: (← normalAll rest)

/-- Each key with what becomes of its entry. -/
def normalEntries : List (Value × Value) → List (Value × Except Fault (Value × Value))
  | [] => []
  | (k, v) :: rest =>
    (k, do
      let name ← keyText k
      let first ← normal v
      return (.text name, first)) :: normalEntries rest

end

end BlockFlow.Json
