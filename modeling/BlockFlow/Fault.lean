import BlockFlow.Value.Basic

/-!
Why a step fails. Every cause is a constructor with the values that its message names, and the wording
stands in one place.

* `Complaint`: a fault about a flow, with a kind, a message and details.
* `Fault`: every cause of failure.
* `Fault.family`: the family a fault belongs to, which decides who answers it.
* `Fault.message`: its wording.
-/

namespace BlockFlow

/-- The kinds of complaints about flows. -/
inductive Complaint.Kind where
  | general
  | rejected (edge : Value)
  | duplicate (edge : Value)
  | circular (edge : Value)
  | missingBlock (id : Value)
  | format
  | validation

/-- A complaint about a flow. The message is a text except where a caller hands over another value. -/
structure Complaint where
  kind : Complaint.Kind
  message : Value
  details : Value

namespace Complaint

/-- A complaint; details that do not count as given are empty. -/
def make (kind : Kind) (message : Value) (details : Value) : Complaint :=
  ⟨kind, message, details.orElse (.dict [])⟩

/-- The wording of a complaint. -/
def text (c : Complaint) : String := c.message.display

/-- The next wider kind: duplicates and circles are rejections, and every kind is a general one. -/
def Kind.wider? : Kind → Option Kind
  | .general => none
  | .duplicate edge => some (.rejected edge)
  | .circular edge => some (.rejected edge)
  | _ => some .general

end Complaint

/-- What is wrong with a JSON text. -/
inductive JsonFlaw where
  | value
  | propertyName
  | colon
  | comma
  | extra
  | unterminated
  | control
  | escape
  | unicodeEscape
  | byteOrderMark
  deriving DecidableEq, Repr

/-- A cause of failure. -/
inductive Fault where
  | complaint (c : Complaint)
  | unhashable (kind : Value.Kind)
  | notSubscriptable (kind : Value.Kind)
  | notIterable (kind : Value.Kind)
  | notSearchable (kind : Value.Kind)
  | textSearch (kind : Value.Kind)
  | bytesSearch (kind : Value.Kind)
  | notAssignable (kind : Value.Kind)
  | badIndex (container index : Value.Kind)
  | notNumber (kind : Value.Kind)
  | notPair (position : Nat)
  | pairLength (position length : Nat)
  | notOrdered (left right : Value.Kind)
  | notWritable (kind : Value.Kind)
  | badKey (kind : Value.Kind)
  | notDocument (kind : Value.Kind)
  | unreadableNumber (shown : Value)
  | unreadableInt (shown : String)
  | tooManyDigits (count : Nat)
  | unknownLevel (name : String)
  | badJson (flaw : JsonFlaw) (line column position : Nat)
  | badEncoding (message : String)
  | missingKey (key : Value)
  | outOfRange (kind : Value.Kind)
  | assignmentOutOfRange
  | indexTooLarge
  | byteOutOfRange
  | notInteger (kind : Value.Kind)
  | countTooLarge
  | noAttribute (kind : Value.Kind) (name : String)
  | tooLarge
  | dateOutOfRange
  | spanTooLarge
  | tooManyDays (days : Int)
  | columnTooLarge
  | requiredColumn (table column : String)
  | duplicateRow
  | unsupportedCell (position : Nat) (kind : Value.Kind)
  | unknownFormat (kind : Value.Kind)
  | unsupportedFormat (kind : Value.Kind)

/-- Families of faults. -/
inductive Family where
  | complaint
  | type
  | value
  | key
  | index
  | attribute
  | overflow
  | constraint
  | binding
  deriving DecidableEq, Repr

def JsonFlaw.message : JsonFlaw → String
  | .value => "Expecting value"
  | .propertyName => "Expecting property name enclosed in double quotes"
  | .colon => "Expecting ':' delimiter"
  | .comma => "Expecting ',' delimiter"
  | .extra => "Extra data"
  | .unterminated => "Unterminated string starting at"
  | .control => "Invalid control character at"
  | .escape => "Invalid \\escape"
  | .unicodeEscape => "Invalid \\uXXXX escape"
  | .byteOrderMark => "Unexpected UTF-8 BOM (decode using utf-8-sig)"

namespace Fault

def family : Fault → Family
  | .complaint _ => .complaint
  | .unhashable _ | .notSubscriptable _ | .notIterable _ | .notSearchable _ | .textSearch _
  | .bytesSearch _ | .notAssignable _ | .badIndex _ _ | .notNumber _ | .notPair _ | .notOrdered _ _
  | .notWritable _ | .badKey _ | .notDocument _ | .unsupportedFormat _ | .notInteger _ => .type
  | .pairLength _ _ | .unreadableNumber _ | .unreadableInt _ | .tooManyDigits _ | .unknownLevel _
  | .badJson _ _ _ _ | .badEncoding _ | .unknownFormat _ | .byteOutOfRange | .countTooLarge => .value
  | .missingKey _ => .key
  | .outOfRange _ | .assignmentOutOfRange | .indexTooLarge => .index
  | .noAttribute _ _ => .attribute
  | .tooLarge | .dateOutOfRange | .spanTooLarge | .tooManyDays _ | .columnTooLarge => .overflow
  | .requiredColumn _ _ | .duplicateRow => .constraint
  | .unsupportedCell _ _ => .binding

private def natText (n : Nat) : String := intText n

private def sort (k : Value.Kind) : String := "'" ++ k.name ++ "'"

/-- The first two hundred characters of a text. -/
private def clipped (s : String) : String := String.ofList (s.toList.take 200)

def message : Fault → String
  | .complaint c => c.text
  | .unhashable k => "unhashable type: " ++ sort k
  | .notSubscriptable k => sort k ++ " object is not subscriptable"
  | .notIterable k => sort k ++ " object is not iterable"
  | .notSearchable k => "argument of type " ++ sort k ++ " is not iterable"
  | .textSearch k => "'in <string>' requires string as left operand, not " ++ k.name
  | .bytesSearch k => "a bytes-like object is required, not " ++ sort k
  | .notAssignable k => sort k ++ " object does not support item assignment"
  | .badIndex .text k => "string indices must be integers, not " ++ sort k
  | .badIndex .bytes k => "byte indices must be integers or slices, not " ++ k.name
  | .badIndex c k => c.name ++ " indices must be integers or slices, not " ++ k.name
  | .notNumber k => "float() argument must be a string or a real number, not " ++ sort k
  | .notPair i => "cannot convert dictionary update sequence element #" ++ natText i ++ " to a sequence"
  | .pairLength i n =>
    "dictionary update sequence element #" ++ natText i ++ " has length " ++ natText n ++ "; 2 is required"
  | .notOrdered a b => "'<' not supported between instances of " ++ sort a ++ " and " ++ sort b
  | .notWritable k => "Object of type " ++ k.name ++ " is not JSON serializable"
  | .badKey k => "keys must be str, int, float, bool or None, not " ++ k.name
  | .notDocument k => "the JSON object must be str, bytes or bytearray, not " ++ k.name
  | .unreadableNumber v => "could not convert string to float: " ++ v.inspect
  | .unreadableInt s => "invalid literal for int() with base 10: " ++ clipped (Text.quoted s)
  | .tooManyDigits n =>
    "Exceeds the limit (4300 digits) for integer string conversion: value has " ++ natText n ++
      " digits; use sys.set_int_max_str_digits() to increase the limit"
  | .unknownLevel s => "Unknown level: " ++ Text.quoted s
  | .badJson flaw line column position =>
    flaw.message ++ ": line " ++ natText line ++ " column " ++ natText column ++ " (char " ++
      natText position ++ ")"
  | .badEncoding m => m
  | .missingKey k => k.inspect
  | .outOfRange .text => "string index out of range"
  | .outOfRange .bytes => "index out of range"
  | .outOfRange k => k.name ++ " index out of range"
  | .assignmentOutOfRange => "list assignment index out of range"
  | .indexTooLarge | .countTooLarge => "cannot fit 'int' into an index-sized integer"
  | .byteOutOfRange => "byte must be in range(0, 256)"
  | .notInteger k => sort k ++ " object cannot be interpreted as an integer"
  | .noAttribute k name => sort k ++ " object has no attribute '" ++ name ++ "'"
  | .tooLarge => "int too large to convert to float"
  | .dateOutOfRange => "date value out of range"
  | .spanTooLarge => "Python int too large to convert to C int"
  | .tooManyDays n => "days=" ++ intText n ++ "; must have magnitude <= 999999999"
  | .columnTooLarge => "Python int too large to convert to SQLite INTEGER"
  | .requiredColumn table column => "NOT NULL constraint failed: " ++ table ++ "." ++ column
  | .duplicateRow => "UNIQUE constraint failed: flows.id"
  | .unsupportedCell i k => "Error binding parameter " ++ natText i ++ ": type " ++ sort k ++ " is not supported"
  | .unknownFormat k => "Unknown format code 'g' for object of type " ++ sort k
  | .unsupportedFormat k => "unsupported format string passed to " ++ k.name ++ ".__format__"

end Fault

end BlockFlow
