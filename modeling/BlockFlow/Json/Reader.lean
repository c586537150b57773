import BlockFlow.Number.Read
import BlockFlow.Text.Encoding
import BlockFlow.Value.Key

/-!
JSON text read as values. The reader goes over the characters once. It keeps the arrays and objects that are still
open on a stack, and at each point knows what may come next; a text is refused at the first character that may not.

A character beyond 16 bits is escaped as a pair of surrogates. A surrogate that stands alone may be escaped too, but is no
character, and no text can hold it. So the readers have a parameter, `lone`: the character to put in its place. It is the
replacement character where none is told. The value of a document has such a surrogate in it just when it depends on `lone`.

* `Json.scanString`, `Json.scanNumber`: the two kinds of lexemes with an inside.
* `Json.State`, `Json.advance`: what is open and what is expected, and the step over one lexeme.
* `Json.readChars`, `Json.read`: a whole text. The integers have at most 4300 digits.
-/

namespace BlockFlow.Json

/-- Blanks between lexemes. -/
def isSpace (c : Char) : Bool := c = ' ' || c = '\t' || c = '\n' || c = '\r'

/-- What is wrong, and how far from where the lexeme starts. -/
structure Refusal where
  flaw : JsonFlaw
  offset : Nat

/-- The value of a hexadecimal digit. -/
def hexValue? (c : Char) : Option Nat :=
  if '0' ≤ c && c ≤ '9' then some (c.toNat - '0'.toNat)
  else if 'a' ≤ c && c ≤ 'f' then some (c.toNat - 'a'.toNat + 10)
  else if 'A' ≤ c && c ≤ 'F' then some (c.toNat - 'A'.toNat + 10)
  else none

/-- The value of four hexadecimal digits. -/
def hexUnit? (a b c d : Char) : Option Nat := do
  let a ← hexValue? a
  let b ← hexValue? b
  let c ← hexValue? c
  let d ← hexValue? d
  return ((a * 16 + b) * 16 + c) * 16 + d

/-- The first surrogate of a pair. -/
def isHighUnit (n : Nat) : Bool := 0xd800 ≤ n && n < 0xdc00

/-- The second surrogate of a pair. -/
def isLowUnit (n : Nat) : Bool := 0xdc00 ≤ n && n < 0xe000

/-- The character of a pair of surrogates. -/
def joinUnits (high low : Nat) : Char := Char.ofNat (0x10000 + (high - 0xd800) * 0x400 + (low - 0xdc00))

/-- The character of one unit. A surrogate that stands alone has none. -/
def unitChar (lone : Char) (n : Nat) : Char := if isHighUnit n || isLowUnit n then lone else Char.ofNat n

/-- The character that a letter after a backslash stands for. -/
def shortEscape? (c : Char) : Option Char :=
  if c = '\x22' ∨ c = '\\' ∨ c = '/' then some c
  else if c = 'b' then some (Char.ofNat 0x8)
  else if c = 'f' then some (Char.ofNat 0xc)
  else if c = 'n' then some '\n'
  else if c = 'r' then some '\r'
  else if c = 't' then some '\t'
  else none

/-- Reads the inside of a string up to its closing quote. `offset` counts the characters since the opening quote, which
is where a string without end is reported; `done` holds the characters in reverse. -/
def scanString (lone : Char) (offset : Nat) (done : List Char) :
    List Char → Except Refusal (List Char × Nat × List Char)
  | [] => .error ⟨.unterminated, 0⟩
  | c :: rest =>
    if c = '\x22' then .ok (done.reverse, offset + 1, rest)
    else if c.toNat < 0x20 then .error ⟨.control, offset⟩
    else if c ≠ '\\' then scanString lone (offset + 1) (c :: done) rest
    else
      match rest with
      | [] => .error ⟨.unterminated, 0⟩
      | e :: more =>
        if e = 'u' then
          match more with
          | a :: b :: c :: d :: tail =>
            if tail.isEmpty then .error ⟨.unicodeEscape, offset + 1⟩
            else
              match hexUnit? a b c d with
              | none => .error ⟨.unicodeEscape, offset + 1⟩
              | some unit =>
                match tail with
                | s :: u :: a :: b :: c :: d :: e :: last =>
                  if isHighUnit unit && s = '\\' && u = 'u' then
                    match hexUnit? a b c d with
                    | none => .error ⟨.unicodeEscape, offset + 7⟩
                    | some low =>
                      if isLowUnit low then scanString lone (offset + 12) (joinUnits unit low :: done) (e :: last)
                      else
                        scanString lone (offset + 6) (unitChar lone unit :: done) (s :: u :: a :: b :: c :: d :: e :: last)
                  else scanString lone (offset + 6) (unitChar lone unit :: done) (s :: u :: a :: b :: c :: d :: e :: last)
                | tail => scanString lone (offset + 6) (unitChar lone unit :: done) tail
          | _ => .error ⟨.unicodeEscape, offset + 1⟩
        else
          match shortEscape? e with
          | some x => scanString lone (offset + 2) (x :: done) more
          | none => .error ⟨.escape, offset⟩
termination_by cs => cs.length

/-- A number: its sign, its whole digits, its fraction digits and its exponent with sign. -/
structure Numeral where
  negative : Bool
  whole : List Char
  fraction : List Char
  exponent : Option (Bool × List Char)
  deriving DecidableEq, Repr

/-- The exponent in front, if one is there. -/
def scanExponent : List Char → Option (Bool × List Char) × Nat × List Char
  | c :: rest =>
    if c = 'e' ∨ c = 'E' then
      let sign := match rest with
        | '-' :: _ => 1
        | '+' :: _ => 1
        | _ => 0
      let (negative, body) := Number.splitSign rest
      let digits := body.takeWhile Number.isDigit
      if digits.isEmpty then (none, 0, c :: rest)
      else (some (negative, digits), 1 + sign + digits.length, body.drop digits.length)
    else (none, 0, c :: rest)
  | [] => (none, 0, [])

/-- The minus in front, if there is one, and what follows it. -/
def splitMinus : List Char → Bool × List Char
  | '-' :: rest => (true, rest)
  | cs => (false, cs)

/-- The digits after the point in front, if there is one. -/
def fractionDigits : List Char → List Char
  | '.' :: rest => rest.takeWhile Number.isDigit
  | _ => []

/-- The number in front, the count of its characters, and what follows. -/
def scanNumber (cs : List Char) : Option (Numeral × Nat × List Char) :=
  let (negative, body) := splitMinus cs
  let digits := body.takeWhile Number.isDigit
  let whole := if digits.head? = some '0' then digits.take 1 else digits
  if whole.isEmpty then none
  else
    let rest := body.drop whole.length
    let fraction := fractionDigits rest
    let pointed := if fraction.isEmpty then 0 else fraction.length + 1
    let (exponent, width, tail) := scanExponent (rest.drop pointed)
    some (⟨negative, whole, fraction, exponent⟩,
      (if negative then 1 else 0) + whole.length + pointed + width, tail)

/-- The value of a number: an integer unless it has a fraction or an exponent. -/
def Numeral.value (n : Numeral) : Except Fault Value :=
  if n.fraction.isEmpty && n.exponent.isNone then
    if 4300 < n.whole.length then .error (.tooManyDigits n.whole.length)
    else .ok (.int (Number.signedValue n.negative n.whole))
  else
    let e : Int := match n.exponent with
      | some (negative, digits) => Number.signedValue negative digits
      | none => 0
    .ok (.real (Binary64.ofDecimal n.negative (Number.digitsValue (n.whole ++ n.fraction)) (e - n.fraction.length)))

/-- The names of values. -/
def names : List (List Char × Value) :=
  [("null".toList, .null), ("true".toList, .bool true), ("false".toList, .bool false),
    ("NaN".toList, .real (.nan 0)), ("Infinity".toList, .real (.infinite false)),
    ("-Infinity".toList, .real (.infinite true))]

/-- The name in front, and what follows. -/
def scanName (cs : List Char) : Option (Value × Nat × List Char) :=
  (names.find? fun n => n.1.isPrefixOf cs).map fun n => (n.2, n.1.length, cs.drop n.1.length)

/-- An array or object that is still open. The elements and entries come in order. -/
inductive Frame where
  | array (items : List Value)
  | object (entries : List (Value × Value)) (key : String)

/-- What may come next. -/
inductive Expect where
  | value
  | valueOrClose
  | key (entries : List (Value × Value))
  | keyOrClose
  | colon (entries : List (Value × Value)) (key : String)
  | separator (v : Value)

/-- What is open, innermost first, and what may come next. -/
structure State where
  frames : List Frame
  expect : Expect

def start : State := ⟨[], .value⟩

/-- Where a fault is, counted from the start of the text. -/
structure Located where
  flaw : JsonFlaw
  position : Nat

/-- Either a flaw of the text or a fault of its own. -/
inductive Failure where
  | text (l : Located)
  | fault (f : Fault)

/-- A step has consumed characters: the state after it, their count and what follows. -/
structure Progress where
  state : State
  width : Nat
  rest : List Char

/-- Reads a value, or opens a container, at its first character. -/
def openValue (lone : Char) (frames : List Frame) (position : Nat) (cs : List Char) : Except Failure Progress :=
  match cs with
  | [] => .error (.text ⟨.value, position⟩)
  | c :: rest =>
    if c = '\x22' then
      match scanString lone 1 [] rest with
      | .error r => .error (.text ⟨r.flaw, position + r.offset⟩)
      | .ok (done, width, tail) => .ok ⟨⟨frames, .separator (.text (String.ofList done))⟩, width, tail⟩
    else if c = '[' then .ok ⟨⟨.array [] :: frames, .valueOrClose⟩, 1, rest⟩
    else if c = '\x7b' then .ok ⟨⟨frames, .keyOrClose⟩, 1, rest⟩
    else
      match scanName cs with
      | some (v, width, tail) => .ok ⟨⟨frames, .separator v⟩, width, tail⟩
      | none =>
        match scanNumber cs with
        | none => .error (.text ⟨.value, position⟩)
        | some (n, width, tail) =>
          match n.value with
          | .error f => .error (.fault f)
          | .ok v => .ok ⟨⟨frames, .separator v⟩, width, tail⟩

/-- Reads the name of an entry. -/
def openKey (lone : Char) (frames : List Frame) (entries : List (Value × Value)) (position : Nat) (cs : List Char) :
    Except Failure Progress :=
  match cs with
  | c :: rest =>
    if c = '\x22' then
      match scanString lone 1 [] rest with
      | .error r => .error (.text ⟨r.flaw, position + r.offset⟩)
      | .ok (done, width, tail) => .ok ⟨⟨frames, .colon entries (String.ofList done)⟩, width, tail⟩
    else .error (.text ⟨.propertyName, position⟩)
  | [] => .error (.text ⟨.propertyName, position⟩)

/-- Goes on after a value inside of a container, or closes it. -/
def afterValue (frames : List Frame) (v : Value) (position : Nat) (cs : List Char) : Except Failure Progress :=
  match frames with
  | [] => .error (.text ⟨.extra, position⟩)
  | .array items :: outer =>
    match cs with
    | ']' :: rest => .ok ⟨⟨outer, .separator (.list (items ++ [v]))⟩, 1, rest⟩
    | ',' :: rest => .ok ⟨⟨.array (items ++ [v]) :: outer, .value⟩, 1, rest⟩
    | _ => .error (.text ⟨.comma, position⟩)
  | .object entries key :: outer =>
    let more := Entries.insert entries (.text key) v
    match cs with
    | '\x7d' :: rest => .ok ⟨⟨outer, .separator (.dict more)⟩, 1, rest⟩
    | ',' :: rest => .ok ⟨⟨outer, .key more⟩, 1, rest⟩
    | _ => .error (.text ⟨.comma, position⟩)

/-- The step over the lexeme that starts here. -/
def advance (lone : Char) (s : State) (position : Nat) (cs : List Char) : Except Failure Progress :=
  match s.expect with
  | .value => openValue lone s.frames position cs
  | .valueOrClose =>
    match s.frames, cs with
    | .array items :: outer, ']' :: rest => .ok ⟨⟨outer, .separator (.list items)⟩, 1, rest⟩
    | _, _ => openValue lone s.frames position cs
  | .keyOrClose =>
    match cs with
    | '\x7d' :: rest => .ok ⟨⟨s.frames, .separator (.dict [])⟩, 1, rest⟩
    | _ => openKey lone s.frames [] position cs
  | .key entries => openKey lone s.frames entries position cs
  | .colon entries key =>
    match cs with
    | ':' :: rest => .ok ⟨⟨.object entries key :: s.frames, .value⟩, 1, rest⟩
    | _ => .error (.text ⟨.colon, position⟩)
  | .separator v => afterValue s.frames v position cs

/-- Reads lexeme after lexeme. A step that consumes nothing ends the reading, so each round has fewer characters. -/
def run (lone : Char) (s : State) (position : Nat) (cs : List Char) : Except Failure Value :=
  let blanks := (cs.takeWhile isSpace).length
  let rest := cs.dropWhile isSpace
  match s.frames, s.expect, rest with
  | [], .separator v, [] => .ok v
  | _, _, _ =>
    match advance lone s (position + blanks) rest with
    | .error f => .error f
    | .ok p =>
      if p.rest.length < cs.length then run lone p.state (position + blanks + p.width) p.rest
      else .error (.text ⟨.value, position + blanks⟩)
termination_by cs.length

/-- The line and the column of a position. -/
def locate (cs : List Char) (position : Nat) : Nat × Nat :=
  let before := cs.take position
  (before.count '\n' + 1, (before.reverse.takeWhile (· ≠ '\n')).length + 1)

/-- The fault of a flaw in a text. -/
def refuse (cs : List Char) (l : Located) : Fault :=
  let (line, column) := locate cs l.position
  .badJson l.flaw line column l.position

/-- Reads characters as one value. -/
def readChars (lone : Char) (cs : List Char) : Except Fault Value :=
  match run lone start 0 cs with
  | .ok v => .ok v
  | .error (.fault f) => .error f
  | .error (.text l) => .error (refuse cs l)

/-- Reads a text as one value. A text has no byte order mark. -/
def read (s : String) (lone : Char := Encoding.replacement) : Except Fault Value :=
  let cs := s.toList
  if cs.head?.any fun c => c.toNat = 0xfeff then .error (refuse cs ⟨.byteOrderMark, 0⟩) else readChars lone cs

end BlockFlow.Json
