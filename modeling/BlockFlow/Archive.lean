import BlockFlow.Workspace

/-!
Saved flows and settings as steps over the workspace. A workspace without a store takes an empty one when it needs it.

* `Archive.save`: saves the flow being edited, which carries the time of it from then on.
* `Archive.load`, `Archive.list`, `Archive.delete`: saved flows.
* `Archive.insertRow`: a row as it is given.
* `Archive.setting?`, `Archive.setSetting`, `Archive.unset`: settings.
-/

namespace BlockFlow.Archive

/-- The store. -/
def store : Work Store := do
  match (← get).store with
  | some s => return s
  | none =>
    modify fun w => { w with store := some {} }
    return {}

def setStore (s : Store) : Work Unit := modify fun w => { w with store := some s }

/-- Saves the flow being edited. The time is put into the flow first, and stays there when the flow cannot be saved. -/
def save : Work Unit := do
  let s ← store
  let now ← Work.stamp
  let f := (← Work.flow).stamped now
  Work.setFlow f
  setStore (← Act.ofExcept (s.save f))
  Work.note .archive .info ("Saved flow " ++ f.id.display ++ " (" ++ f.name.inspect ++ ")")

/-- The saved flow of an identifier. -/
def load (id : Value) : Work (Option Flow) := do
  let s ← store
  let cell ← Act.ofExcept (Cell.ofValue 1 id)
  match s.find? cell with
  | none => return none
  | some row => return some (← Work.drawing (Flow.importText row.document.toValue))

/-- A fault is a complaint about the format of a flow. -/
def isFormat : Fault → Bool
  | .complaint ⟨.format, _, _⟩ => true
  | _ => false

/-- The flows of rows. One whose format is not understood is passed over with a note. -/
def readRows : List FlowRow → Work (List Flow)
  | [] => return []
  | row :: rest => do
    match ← Act.attempt (Work.drawing (Flow.importText row.document.toValue)) with
    | .ok f => return f :: (← readRows rest)
    | .error fault =>
      if isFormat fault then
        Work.note .archive .error ("Skipping unreadable flow " ++ row.id.toValue.display ++ ": " ++ fault.message)
        readRows rest
      else Act.fail fault

/-- All saved flows, the last saved first. -/
def list : Work (List Flow) := do readRows (← store).listing

/-- Deletes a saved flow; tells whether there was one. -/
def delete (id : Value) : Work Bool := do
  let s ← store
  let cell ← Act.ofExcept (Cell.ofValue 1 id)
  let (rest, found) := s.erase cell
  setStore rest
  if found then Work.note .archive .info ("Deleted flow " ++ id.display)
  return found

/-- Inserts a row as it is given. -/
def insertRow (id name createdAt updatedAt document : Value) : Work Unit := do
  let s ← store
  let row ← Act.ofExcept (FlowRow.bind id name createdAt updatedAt document)
  setStore (← Act.ofExcept (s.insertRow row))

/-- The value of a setting. -/
def setting? (key : Value) : Work (Option Value) := do Act.ofExcept ((← store).setting? key)

/-- Writes a setting; gives the record of it. -/
def setSetting (key value : Value) : Work Value := do
  let s ← store
  let now ← Work.stamp
  let (changed, record) ← Act.ofExcept (s.setSetting now key value)
  setStore changed
  return record

/-- Removes a setting; tells whether there was one. -/
def unset (key : Value) : Work Bool := do
  let s ← store
  let (changed, found) ← Act.ofExcept (s.unset key)
  setStore changed
  return found

end BlockFlow.Archive
