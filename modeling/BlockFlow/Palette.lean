import BlockFlow.Value.Key

/-!
The palette: which kinds of blocks there are, how they look, and which parameters they take.

* `Param`, `BlockKind`: a parameter of a block, and a kind of blocks.
* `Palette.kinds`, `Palette.categories`: the kinds by name, and the groups in which they are offered.
* `Palette.kindOf`, `Palette.paramOf`: what is known of a block type. A type that the palette does not have is a kind
  without parameters.
-/

namespace BlockFlow

/-- What a parameter is edited as. -/
inductive ParamType where
  | text
  | number
  | select
  | boolean
  deriving DecidableEq, Repr

def ParamType.name : ParamType → String
  | .text => "text"
  | .number => "number"
  | .select => "select"
  | .boolean => "boolean"

/-- A value that a parameter may be set to, and what it is called. -/
structure Choice where
  label : String
  value : String
  deriving DecidableEq, Repr

/-- A parameter of a kind of blocks. -/
structure Param where
  name : String
  label : String
  type : ParamType
  initial : Value
  choices : List Choice := []

/-- The values that a parameter may be set to. -/
def Param.values (p : Param) : List String := p.choices.map (·.value)

/-- A kind of blocks. -/
structure BlockKind where
  type : Value
  label : Value
  description : String
  headerColor : String
  pointColor : String
  params : List Param

/-- The parameter of a name. -/
def BlockKind.param? (k : BlockKind) (name : Value) : Option Param := k.params.find? fun p => name.isText p.name

/-- An entry of the palette. -/
structure Summary where
  type : String
  label : String
  description : String
  background : String
  border : String

/-- A group of the palette. -/
structure Category where
  id : String
  name : String
  blocks : List Summary

namespace Palette

/-- Types of blocks whose outgoing edges are their body. -/
def controlTypes : List String := ["if-else", "for-loop", "while-loop", "forEach", "function-def"]

private def textParam (name label initial : String) : Param := ⟨name, label, .text, .text initial, []⟩

private def numberParam (name label : String) (initial : Int) : Param := ⟨name, label, .number, .int initial, []⟩

private def selectParam (name label initial : String) (values : List String) : Param :=
  ⟨name, label, .select, .text initial, values.map fun v => ⟨v, v⟩⟩

private def resultParam : Param := textParam "resultVar" "Result Variable (optional)" "result"

private def entry (type label description color : String) (params : List Param) : BlockKind :=
  ⟨.text type, .text label, description, color, color, params⟩

/-- The kinds of blocks. -/
def kinds : List BlockKind :=
  [entry "console.log" "console.log" "Output to console" "bg-blue-500"
      [textParam "message" "Message" "Hello, world!"],
    entry "variable" "Variable" "Create/assign variable" "bg-green-500"
      [textParam "name" "Variable Name" "myVar",
        textParam "value" "Value" "0",
        selectParam "type" "Type" "Number" ["Number", "String", "Boolean", "Array", "Object"]],
    entry "for-loop" "For Loop" "Iterate with counter" "bg-purple-500"
      [textParam "initVar" "Initialize Variable" "i",
        numberParam "initVal" "Initial Value" 0,
        selectParam "condOp" "Condition Operator" "<" ["<", "<=", ">", ">=", "==", "!="],
        numberParam "condVal" "Condition Value" 10,
        textParam "iteration" "Iteration" "i++"],
    entry "while-loop" "While Loop" "Loop with condition" "bg-purple-500"
      [textParam "condition" "Condition" "i < 10"],
    entry "forEach" "forEach" "Iterate through array" "bg-purple-500"
      [textParam "array" "Array" "myArray",
        textParam "itemName" "Item Name" "item"],
    entry "if-else" "If-Else" "Conditional logic" "bg-yellow-500"
      [textParam "condition" "Condition" "x > 0"],
    entry "math-operation" "Math Operation" "Mathematical operation" "bg-red-500"
      [textParam "leftOperand" "Left Operand" "0",
        selectParam "operator" "Operator" "+" ["+", "-", "*", "/", "%", "**"],
        textParam "rightOperand" "Right Operand" "0",
        resultParam],
    entry "comparison" "Comparison" "Compare values" "bg-red-500"
      [textParam "leftOperand" "Left Operand" "0",
        selectParam "operator" "Operator" "==" ["==", "===", "!=", "!==", ">", ">=", "<", "<="],
        textParam "rightOperand" "Right Operand" "0",
        resultParam],
    entry "logical-operator" "Logical Operator" "Logical operation" "bg-red-500"
      [textParam "leftOperand" "Left Operand" "true",
        ⟨"operator", "Operator", .select, .text "&&", [⟨"AND", "&&"⟩, ⟨"OR", "||"⟩, ⟨"NOT", "!"⟩]⟩,
        textParam "rightOperand" "Right Operand" "true",
        resultParam],
    entry "function-def" "Define Function" "Create a function" "bg-indigo-500"
      [textParam "name" "Function Name" "myFunction",
        textParam "params" "Parameters (comma separated)" "a, b"],
    entry "return" "Return" "Return a value" "bg-indigo-500"
      [textParam "value" "Return Value" "result"],
    entry "function-call" "Call Function" "Execute a function" "bg-indigo-500"
      [textParam "name" "Function Name" "myFunction",
        textParam "args" "Arguments (comma separated)" "1, 2",
        resultParam]]

private def offer (type label description color : String) : Summary :=
  ⟨type, label, description, "bg-" ++ color ++ "-100", "border-" ++ color ++ "-300"⟩

/-- The groups in which the kinds are offered. -/
def categories : List Category :=
  [⟨"basic", "Basic",
      [offer "console.log" "console.log" "Output to console" "blue",
        offer "variable" "Variable" "Create/assign variable" "green",
        offer "if-else" "If-Else" "Conditional logic" "yellow"]⟩,
    ⟨"loops", "Loops",
      [offer "for-loop" "For Loop" "Iterate with counter" "purple",
        offer "while-loop" "While Loop" "Loop with condition" "purple",
        offer "forEach" "forEach" "Iterate through array" "purple"]⟩,
    ⟨"math", "Math & Logic",
      [offer "math-operation" "Math Operation" "+, -, *, / operations" "red",
        offer "comparison" "Comparison" "==, !=, >, < operators" "red",
        offer "logical-operator" "Logical Operator" "AND, OR, NOT" "red"]⟩,
    ⟨"functions", "Functions",
      [offer "function-def" "Define Function" "Create a function" "indigo",
        offer "return" "Return" "Return a value" "indigo",
        offer "function-call" "Call Function" "Execute a function" "indigo"]⟩]

/-- The kind of a type that the palette has. -/
def find? (type : Value) : Except Fault (Option BlockKind) :=
  match type.key with
  | .error f => .error f
  | .ok _ => .ok (kinds.find? fun k => Value.same k.type type)

/-- The palette has this type. -/
def isKnown (type : Value) : Except Fault Bool := (find? type).map (·.isSome)

/-- The kind of a type that the palette does not have. -/
def unknownKind (type : Value) : BlockKind := ⟨type, type, "Unknown block type", "bg-gray-500", "bg-gray-500", []⟩

/-- The kind of a type. -/
def kindOf (type : Value) : Except Fault BlockKind := (find? type).map fun k => k.getD (unknownKind type)

/-- The parameter of a name that blocks of a type take. -/
def paramOf (type name : Value) : Except Fault (Option Param) := (kindOf type).map (·.param? name)

/-- The initial values of the parameters of a type. -/
def initialParams (type : Value) : Except Fault (List (Value × Value)) :=
  (kindOf type).map fun k => k.params.map fun p => (.text p.name, p.initial)

/-- A parameter as a document. -/
def paramDocument (p : Param) : Value :=
  .object [("name", .text p.name), ("label", .text p.label), ("type", .text p.type.name),
    ("defaultValue", p.initial),
    ("options",
      if p.choices.isEmpty then .null
      else .list (p.choices.map fun c => .object [("label", .text c.label), ("value", .text c.value)]))]

/-- An offered block with its parameters as a document. -/
def summaryDocument (s : Summary) : Value :=
  let params := ((kinds.find? fun k => k.type.isText s.type).map (·.params)).getD []
  .object [("type", .text s.type), ("label", .text s.label), ("description", .text s.description),
    ("bgColor", .text s.background), ("borderColor", .text s.border),
    ("params", .list (params.map paramDocument))]

/-- The whole palette as a document. -/
def document : Value :=
  .list (categories.map fun c =>
    .object [("id", .text c.id), ("name", .text c.name), ("blocks", .list (c.blocks.map summaryDocument))])

end Palette

end BlockFlow
