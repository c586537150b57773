import BlockFlow.Value.Basic

/-!
Scripts as trees of statements. Nesting is explicit, and every node knows the block that it was made for.

* `Node`: a statement, a comment, a blank line, or a header with a body and a closing line.
* `Node.walk`: all nodes with their depth, in the order in which they are written.
* `Program`: the comments at the top and the nodes below; `Program.blockIds` lists whose code it holds.
-/

namespace BlockFlow.Script

/-- A node of a script. The origin is the identifier of a block, or `null`. -/
inductive Node where
  | statement (text : String) (origin : Value)
  | comment (text : String) (origin : Value)
  | blank (origin : Value)
  | block (header : String) (body : List Node) (closer : String) (origin : Value)
  deriving Inhabited

namespace Node

def origin : Node → Value
  | .statement _ o => o
  | .comment _ o => o
  | .blank o => o
  | .block _ _ _ o => o

def isBlank : Node → Bool
  | .blank _ => true
  | _ => false

/-- The identifier of the block whose code a node is. Blank lines are no code, and `null` is no block. -/
def blockId? (node : Node) : Option Value :=
  match node.isBlank, node.origin with
  | true, _ => none
  | _, .null => none
  | _, id => some id

mutual

/-- A node and the nodes below it, each with its depth. -/
def walk (depth : Int) : Node → List (Node × Int)
  | .block header body closer origin => (.block header body closer origin, depth) :: walkAll (depth + 1) body
  | node => [(node, depth)]

/-- The nodes of a list and those below them, each with its depth. -/
def walkAll (depth : Int) : List Node → List (Node × Int)
  | [] => []
  | node :: rest => walk depth node ++ walkAll depth rest

end

end Node

/-- A whole script. -/
structure Program where
  header : List String
  body : List Node

/-- The identifiers of the blocks whose code a program holds, in the order in which it is written. -/
def Program.blockIds (p : Program) : List Value := (Node.walkAll 0 p.body).filterMap fun (node, _) => node.blockId?

end BlockFlow.Script
