import BlockFlow.Flow.Basic
import BlockFlow.Json.Writer
import BlockFlow.Palette

/-!
The code of one block. Parameters are written into it as they are; a parameter that is not set is `undefined`. Integers are
written with all their digits, as in JSON text: those that were read from a document have at most 4300.

* `Script.inline`, `Script.literal`: a value inside of code, and as a literal.
* `Script.typeName`: the type of a block as text.
* `Script.statement?`: the statement of a block that has one.
* `Script.structure?`: the header and the closing line of a block with a body.
-/

namespace BlockFlow.Script

/-- A value inside of code. A number without fraction is written as an integer. -/
def inline : Value → String
  | .null => "undefined"
  | .bool b => if b then "true" else "false"
  | .real x =>
    match x.toInt? with
    | some n => intText n
    | none => Value.display (.real x)
  | v => v.display

/-- A value as a literal: JSON text, or its inline form between quotes where there is no JSON text. -/
def literal : Value → String
  | .null => "undefined"
  | v =>
    match Json.compact v with
    | .ok text => text
    | .error _ => Json.quote (inline v)

/-- The type of a block as text. -/
def typeName (b : Block) : String :=
  match b.type with
  | .text s => s
  | v => inline v

/-- A parameter of a block. -/
def param (b : Block) (name : String) : Value :=
  match b.params with
  | .dict entries => Entries.fieldD entries name .null
  | _ => .null

/-- A parameter of a block inside of code. -/
def arg (b : Block) (name : String) : String := inline (param b name)

/-- An expression as a statement, bound to the result variable if one is given. -/
def bindResult (b : Block) (expression : String) : String :=
  let result := param b "resultVar"
  if result.truthy then "let " ++ inline result ++ " = " ++ expression ++ ";" else expression ++ ";"

def logStatement (b : Block) : String := "console.log(" ++ literal (param b "message") ++ ");"

/-- A variable; of type `String`, its value is written between quotes. -/
def variableStatement (b : Block) : String :=
  let value := arg b "value"
  "let " ++ arg b "name" ++ " = " ++ (if (param b "type").isText "String" then Json.quote value else value) ++ ";"

def returnStatement (b : Block) : String := "return " ++ arg b "value" ++ ";"

def callStatement (b : Block) : String := bindResult b (arg b "name" ++ "(" ++ arg b "args" ++ ")")

def binaryExpression (b : Block) : String :=
  arg b "leftOperand" ++ " " ++ arg b "operator" ++ " " ++ arg b "rightOperand"

/-- A logical operation; negation has a right operand only. -/
def logicalStatement (b : Block) : String :=
  bindResult b (if (param b "operator").isText "!" then "!" ++ arg b "rightOperand" else binaryExpression b)

/-- The statement of a block whose type has one. -/
def statement? (b : Block) : Option String :=
  match typeName b with
  | "console.log" => some (logStatement b)
  | "variable" => some (variableStatement b)
  | "return" => some (returnStatement b)
  | "function-call" => some (callStatement b)
  | "math-operation" => some (bindResult b (binaryExpression b))
  | "comparison" => some (bindResult b (binaryExpression b))
  | "logical-operator" => some (logicalStatement b)
  | _ => none

/-- The header of a counting loop. -/
def loopHeader (b : Block) : String :=
  let counter := arg b "initVar"
  "for (let " ++ counter ++ " = " ++ arg b "initVal" ++ "; " ++ counter ++ " " ++ arg b "condOp" ++ " " ++
    arg b "condVal" ++ "; " ++ arg b "iteration" ++ ") \x7b"

/-- The header and the closing line of a block whose type has a body. -/
def structure? (b : Block) : Option (String × String) :=
  match typeName b with
  | "if-else" => some ("if (" ++ arg b "condition" ++ ") \x7b", "\x7d")
  | "for-loop" => some (loopHeader b, "\x7d")
  | "while-loop" => some ("while (" ++ arg b "condition" ++ ") \x7b", "\x7d")
  | "forEach" => some (arg b "array" ++ ".forEach((" ++ arg b "itemName" ++ ") => \x7b", "\x7d);")
  | "function-def" => some ("function " ++ arg b "name" ++ "(" ++ arg b "params" ++ ") \x7b", "\x7d")
  | _ => none

end BlockFlow.Script
