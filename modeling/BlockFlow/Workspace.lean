import BlockFlow.Flow.Document
import BlockFlow.Journal
import BlockFlow.Runner.Basic
import BlockFlow.Store.Basic
import BlockFlow.Time.Stamp

/-!
The workspace: the flow being edited and its code, the store, the runner, the clock and the journal.

* `Workspace`: the state of all that goes on.
* `Work`: steps over it. A step that fails keeps what it has changed until then.
* `Work.note`, `Work.draw`, `Work.stamp`, `Work.moment`: notes, fresh identifiers and the time.
-/

namespace BlockFlow

/-- Code that was announced, with the flow it was made from. -/
structure Announcement where
  flow : Value
  code : String

/-- The state of all that goes on: what is edited, where it is kept and run, what was announced and noted, the number of
the next identifier, and the time in microseconds. -/
structure Workspace where
  flow : Flow
  code : String := ""
  indent : Int := 2
  store : Option Store := none
  runner : Option Runner := none
  machine : Machine := {}
  environment : Environment := []
  listening : Bool := false
  announced : Array Announcement := #[]
  notes : Array Note := #[]
  serial : Nat := 1
  now : Int := 0

/-- Steps over a workspace. -/
abbrev Work := Act Workspace

namespace Work

/-- Leaves a note. -/
def note (speaker : Speaker) (level : Level) (text : String) : Work Unit :=
  modify fun w => { w with notes := w.notes.push ⟨speaker, level, text⟩ }

@[simp] theorem note_apply (speaker : Speaker) (level : Level) (text : String) (w : Workspace) :
    note speaker level text w = (.ok (), { w with notes := w.notes.push ⟨speaker, level, text⟩ }) := rfl

/-- A step that draws identifiers. -/
def drawing {α : Type} (step : Drawing α) : Work α :=
  Act.within (·.serial) (fun n w => { w with serial := n }) step

/-- A fresh identifier of a sort of things. -/
def draw (sort : String) : Work Value := drawing (drawId sort)

/-- The flow being edited. -/
def flow : Work Flow := return (← get).flow

def setFlow (f : Flow) : Work Unit := modify fun w => { w with flow := f }

/-- The time as it is written with what is saved. -/
def stamp : Work String := do Act.ofExcept (Stamp.saved (← get).now)

theorem stamp_apply (w : Workspace) : stamp w = (Stamp.saved w.now, w) := by simp [stamp, Act.bind_apply]

/-- The time as a reading of the clock. -/
def moment : Work Moment := do
  let clock ← Act.ofExcept (Clock.ofInstant? (← get).now)
  return ⟨clock, some 0⟩

/-- Moves the clock by microseconds. -/
def tick (micros : Int) : Work Unit := do
  let now ← Act.ofExcept (Clock.later (← get).now micros)
  modify fun w => { w with now := now }

/-- The outcome of an edit of the flow. What it has changed stays, also when it fails. -/
def edited {α : Type} (edit : Edited Flow α) : Work α := do
  setFlow edit.1
  Act.ofExcept edit.2

end Work

end BlockFlow
