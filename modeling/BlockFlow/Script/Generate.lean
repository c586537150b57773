import BlockFlow.Script.Emission
import BlockFlow.Script.Writer
import BlockFlow.Workspace

/-!
The script of a flow: the comments at the top, and the body that its blocks give.

* `Script.heading`, `Script.assemble`, `Script.build`: the script of a flow, with a given time stamp.
* `Script.entryBlocks`: the blocks where it starts.
* `Work.build`, `Work.generate`: the same as steps that leave notes; the time is the clock's unless it is given.
-/

namespace BlockFlow

namespace Script

/-- The comments at the top of a script. -/
def heading (f : Flow) (stamp : String) : List String :=
  ["JavaScript code generated by Block Coding App",
    "Flow: " ++ f.name.display,
    "Generated: " ++ stamp,
    "Blocks: " ++ intText f.blocks.length ++ ", Connections: " ++ intText f.edges.length]

/-- The script of a flow from its body. -/
def assemble (f : Flow) (body : Plan.Body) (stamp : String) : Program :=
  ⟨heading f stamp, body.reached ++ body.fragments⟩

/-- The script of a flow. -/
def build (f : Flow) (stamp : String) : Except Fault Program :=
  (Plan.ofFlow f).map fun p => assemble f p.body stamp

/-- The blocks that no edge points at. -/
def entryBlocks (f : Flow) : Except Fault (List Block) :=
  (Plan.ofFlow f).map fun p => p.entries.map (·.1.block)

/-- The note about a flow of which every block is pointed at. -/
def fallbackNote? (f : Flow) (p : Plan) : Option String :=
  match p.entries, f.blocks with
  | [], b :: _ => some ("Flow " ++ f.id.display ++ " has no entry point; starting from block " ++ b.id.display)
  | _, _ => none

/-- The note about a script that was made. -/
def summaryNote (f : Flow) (p : Plan) (body : Plan.Body) : String :=
  "Generated code for flow " ++ f.id.display ++ ": " ++ intText f.blocks.length ++ " blocks, " ++
    intText f.edges.length ++ " edges, " ++ intText p.starts.length ++ " entry points, " ++
    intText body.disconnected ++ " disconnected"

end Script

namespace Work

/-- The script of a flow. -/
def build (f : Flow) (given : Option Moment) : Work Script.Program := do
  let plan ← Act.ofExcept (Script.Plan.ofFlow f)
  if let some text := Script.fallbackNote? f plan then note .script .warning text
  let body := plan.body
  note .script .debug (Script.summaryNote f plan body)
  let m ← match given with
    | some m => pure m
    | none => moment
  let stamp ← Act.ofExcept (Stamp.generated m)
  return Script.assemble f body stamp

/-- The script of a flow as text. -/
def generate (f : Flow) (indent : Int) (given : Option Moment) : Work String :=
  return (← build f given).render indent

end Work

end BlockFlow
