import BlockFlow.Archive
import BlockFlow.Canvas
import BlockFlow.Flow.Validate
import BlockFlow.Runner.Execute
import BlockFlow.Script.Generate

/-!
The editing session. The code is made anew after each change of the flow and announced to whoever listens; what the flow
refuses comes back as feedback.

* `Feedback`: a short message about an action.
* `Session.start`, `Session.regenerate`: code for the flow as it stands.
* `Session.addBlock`, `Session.setParam`, `Session.move`, `Session.removeBlock`: blocks.
* `Session.addEdge`, `Session.connect`, `Session.removeEdge`: edges.
* `Session.newFlow`, `Session.clear`, `Session.rename`, `Session.warnings`: the flow as a whole.
* `Session.save`, `Session.load`, `Session.importText`: saved flows.
* `Session.run`: running the code.
-/

namespace BlockFlow

/-- A short message about the outcome of an action. -/
structure Feedback where
  title : String
  description : String
  ok : Bool := true
  deriving DecidableEq, Repr

def Feedback.document (f : Feedback) : Value :=
  .object [("title", .text f.title), ("description", .text f.description),
    ("variant", .text (if f.ok then "default" else "destructive"))]

namespace Session

/-- Makes the code of the flow anew and announces it. -/
def regenerate : Work Unit := do
  let w ← get
  let code ← Work.generate w.flow w.indent none
  modify fun w => { w with code := code }
  if w.listening then modify fun w => { w with announced := w.announced.push ⟨w.flow.id, code⟩ }

/-- Starts on a flow, or on a new one. -/
def start (given : Option Flow) : Work Unit := do
  match given with
  | some f => Work.setFlow f
  | none => Work.setFlow { id := ← Work.draw "flow" }
  regenerate

def addBlock (type position : Value) : Work Block := do
  let b ← Canvas.addBlock type position
  regenerate
  return b

/-- Sets a parameter of a block; tells whether the block is there. -/
def setParam (id key value : Value) : Work Bool := do
  let f ← Work.flow
  if (f.block? id).isNone then return false
  Work.setFlow (← Act.ofExcept (f.setParam id key value))
  regenerate
  return true

/-- Moves a block, which does not matter to the code; tells whether the block is there. -/
def move (id position : Value) : Work Bool := do
  let (f, found) ← Act.ofExcept ((← Work.flow).move id position)
  Work.setFlow f
  return found

def removeBlock (id : Value) : Work Feedback := do
  if ((← Work.flow).block? id).isNone then
    return ⟨"Block not found", "No block with id " ++ id.display ++ ".", false⟩
  let count ← Canvas.removeBlock id
  regenerate
  return ⟨"Block removed", "Block removed with " ++ intText count ++ " connection(s).", true⟩

/-- What a user is told about an edge that is refused. -/
def refusal? : Fault → Option Feedback
  | .complaint c =>
    match c.kind with
    | .duplicate _ => some ⟨"Connection exists", "These blocks are already connected.", false⟩
    | .circular _ => some ⟨"Invalid connection", "This connection would create a circular reference.", false⟩
    | .missingBlock _ => some ⟨"Invalid connection", c.text, false⟩
    | _ => none
  | _ => none

/-- Tries to add an edge; tells whether it was added. -/
def addEdge (e : Edge) : Work (Bool × Feedback) := do
  match ← Act.attempt (Canvas.addEdge e) with
  | .ok _ =>
    regenerate
    return (true, ⟨"Blocks connected", "Connected " ++ e.source.display ++ " to " ++ e.target.display ++ ".", true⟩)
  | .error fault =>
    match refusal? fault with
    | some feedback => return (false, feedback)
    | none => Act.fail fault

/-- Tries to connect two blocks; also gives the edge. -/
def connect (source target : Value) : Work (Edge × Bool × Feedback) := do
  let e ← Canvas.newEdge source target
  return (e, ← addEdge e)

/-- Removes the edges of an identifier; tells whether there was one. -/
def removeEdge (id : Value) : Work Bool := do
  match ← Canvas.removeEdge id with
  | none => return false
  | some _ =>
    regenerate
    return true

/-- Starts a new flow. -/
def newFlow (name : Value) : Work Feedback := do
  Work.setFlow { id := ← Work.draw "flow", name }
  regenerate
  return ⟨"New flow created", "Started a new empty flow.", true⟩

def clear : Work Feedback := do
  Work.setFlow (← Work.flow).clear
  regenerate
  return ⟨"Canvas cleared", "All blocks and connections have been removed.", true⟩

def rename (name : Value) : Work Unit := do
  Work.setFlow { ← Work.flow with name }
  regenerate

/-- What is wrong with the flow and the parameters of its blocks. -/
def findings (f : Flow) : Except Fault (List String) := do
  let structural ← f.findings
  let blocks ← f.blocks.mapM Block.findings
  return (structural ++ blocks.flatten).map Complaint.text

def warnings : Work (List String) := do Act.ofExcept (findings (← Work.flow))

def save : Work Feedback := do
  Archive.save
  return ⟨"Flow saved", "Your flow \"" ++ (← Work.flow).name.display ++ "\" has been saved.", true⟩

/-- Goes on with another flow. -/
def adopt (f : Flow) : Work Unit := do
  Work.setFlow f
  regenerate

def load (id : Value) : Work Feedback := do
  match ← Archive.load id with
  | none => return ⟨"Flow not found", "No saved flow with id " ++ id.display ++ ".", false⟩
  | some f =>
    adopt f
    return ⟨"Flow loaded", "Flow \"" ++ f.name.display ++ "\" has been loaded.", true⟩

def exportText : Work String := do Act.ofExcept (← Work.flow).exportText

def importText (text : Value) : Work Feedback := do
  match ← Act.attempt (Work.drawing (Flow.importText text)) with
  | .ok f =>
    adopt f
    return ⟨"Flow imported", "Flow \"" ++ f.name.display ++ "\" has been imported.", true⟩
  | .error fault =>
    if Archive.isFormat fault then
      Work.note .session .warning ("Rejected flow import: " ++ fault.message)
      return ⟨"Import failed", fault.message, false⟩
    else Act.fail fault

/-- The runner, which is made when it is first needed. -/
def runner : Work Runner := do
  let w ← get
  match w.runner with
  | some r => return r
  | none =>
    let r ← Runner.make w.store .null .null
    modify fun w => { w with runner := some r }
    return r

/-- Runs the code. -/
def run : Work (Report × Feedback) := do
  let r ← runner
  let report ← r.execute (← get).code
  if report.success.truthy then return (report, ⟨"Code executed", report.message.display, true⟩)
  else return (report, ⟨"Execution error", report.message.display, false⟩)

end Session

end BlockFlow
