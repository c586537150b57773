import BlockFlow.Workspace

/-!
Edits of the flow as steps that leave notes.

* `Canvas.addBlock`, `Canvas.removeBlock`: blocks.
* `Canvas.addEdge`, `Canvas.connect`, `Canvas.removeEdge`: edges.
-/

namespace BlockFlow.Canvas

/-- Two identifiers as the ends of a connection. -/
def between (e : Edge) : String := e.source.display ++ " -> " ++ e.target.display

/-- Adds a block of a type. -/
def addBlock (type position : Value) : Work Block := do
  let id ← Work.draw "block"
  let f ← Work.flow
  Work.setFlow (f.addBlock id type position)
  Work.note .canvas .debug ("Added " ++ type.display ++ " block " ++ id.display ++ " to flow " ++ f.id.display)
  return Block.fresh id type (position.orElse defaultPosition)

/-- Removes a block; gives the number of edges that went with it. -/
def removeBlock (id : Value) : Work Nat := do
  match (← Work.flow).removeBlock id with
  | (_, none) => return 0
  | (f, some count) =>
    Work.setFlow f
    Work.note .canvas .debug ("Removed block " ++ id.display ++ " with " ++ intText count ++ " connection(s)")
    return count

/-- The note about an edge that is refused. -/
def refusal? (e : Edge) : Fault → Option String
  | .complaint ⟨.duplicate _, _, _⟩ => some ("Rejected duplicate connection " ++ between e)
  | .complaint ⟨.circular _, _, _⟩ => some ("Rejected circular connection " ++ between e)
  | _ => none

/-- Adds an edge unless it has to be refused. -/
def addEdge (e : Edge) : Work Unit := do
  match (← Work.flow).addEdge e with
  | .ok f =>
    Work.setFlow f
    Work.note .canvas .debug ("Connected " ++ between e ++ " (" ++ e.id.display ++ ")")
  | .error fault =>
    if let some text := refusal? e fault then Work.note .canvas .warning text
    Act.fail fault

/-- A new edge between two identifiers. -/
def newEdge (source target : Value) : Work Edge := return { id := ← Work.draw "edge", source, target }

/-- Connects two blocks. -/
def connect (source target : Value) : Work Edge := do
  let e ← newEdge source target
  addEdge e
  return e

/-- Removes the edges of an identifier; gives the first of them. -/
def removeEdge (id : Value) : Work (Option Edge) := do
  match (← Work.flow).removeEdge id with
  | (_, none) => return none
  | (f, some e) =>
    Work.setFlow f
    Work.note .canvas .debug ("Disconnected " ++ between e ++ " (" ++ e.id.display ++ ")")
    return some e

end BlockFlow.Canvas
