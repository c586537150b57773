import BlockFlow.Flow.Document
import BlockFlow.Store.Cell
import BlockFlow.Text.Blank
import BlockFlow.Text.Lowercase

/-!
The store: a table of saved flows and a table of settings. Rows stay where they were first inserted.

* `FlowRow`, `Store.put`, `Store.insertRow`, `Store.find?`, `Store.erase`, `Store.listing`: saved flows, as documents.
* `Setting`, `Store.setSetting`, `Store.setting?`, `Store.unset`: settings, whose names are in lower case.
* `Store.save`: a flow saved as a row.
* `Environment`, `resolveSetting`: a setting from the store, the environment or a default.
-/

namespace BlockFlow

/-- A saved flow. -/
structure FlowRow where
  id : Cell
  name : Cell
  createdAt : Cell
  updatedAt : Cell
  document : Cell
  deriving DecidableEq

/-- A setting. -/
structure Setting where
  key : Cell
  value : Cell
  updatedAt : Cell
  deriving DecidableEq

/-- The two tables, each in the order of insertion. -/
structure Store where
  flows : List FlowRow := []
  settings : List Setting := []

/-- A flow with the time of its saving, which is also that of its making if none is known. -/
def Flow.stamped (f : Flow) (now : String) : Flow :=
  { f with createdAt := f.createdAt.orElse (.text now), updatedAt := .text now }

namespace FlowRow

/-- A row from values; they are bound in the order of the columns. -/
def bind (id name createdAt updatedAt document : Value) : Except Fault FlowRow := do
  let id ← Cell.ofValue 1 id
  let name ← Cell.ofValue 2 name
  let createdAt ← Cell.ofValue 3 createdAt
  let updatedAt ← Cell.ofValue 4 updatedAt
  let document ← Cell.ofValue 5 document
  return ⟨id, name, createdAt, updatedAt, document⟩

/-- The first column, apart from the identifier, that is empty though it has to be filled. -/
def missing? (r : FlowRow) : Option String :=
  if r.name.isNull then some "name"
  else if r.createdAt.isNull then some "created_at"
  else if r.updatedAt.isNull then some "updated_at"
  else if r.document.isNull then some "flow_json"
  else none

/-- All columns that have to be filled are filled. -/
def check (r : FlowRow) : Except Fault Unit :=
  match r.missing? with
  | some column => .error (.requiredColumn "flows" column)
  | none => .ok ()

end FlowRow

namespace Store

/-- The row of an identifier. -/
def find? (s : Store) (id : Cell) : Option FlowRow := s.flows.find? fun r => r.id.holds id

/-- Inserts a row, or writes name, time and document over those of the row that has its identifier. -/
def put (s : Store) (r : FlowRow) : Except Fault Store := do
  r.check
  if (s.find? r.id).isSome then
    return { s with
      flows := s.flows.map fun old =>
        if old.id.holds r.id then { old with name := r.name, updatedAt := r.updatedAt, document := r.document }
        else old }
  else return { s with flows := s.flows ++ [r] }

/-- Inserts a row, whose identifier has to be new. -/
def insertRow (s : Store) (r : FlowRow) : Except Fault Store := do
  r.check
  if (s.find? r.id).isSome then .error .duplicateRow else return { s with flows := s.flows ++ [r] }

/-- Saves a flow. Its document is made before it is bound to columns. -/
def save (s : Store) (f : Flow) : Except Fault Store := do
  let text ← f.exportText
  let row ← FlowRow.bind f.id f.name f.createdAt f.updatedAt (.text text)
  s.put row

/-- Removes the row of an identifier; tells whether there was one. -/
def erase (s : Store) (id : Cell) : Store × Bool :=
  ({ s with flows := s.flows.filter fun r => !r.id.holds id }, (s.find? id).isSome)

/-- The row was updated later than the other. -/
def later (a b : FlowRow) : Bool := b.updatedAt.before a.updatedAt

/-- Puts a row before the first one that it is not earlier than. -/
def insertByTime (r : FlowRow) : List FlowRow → List FlowRow
  | [] => [r]
  | x :: rest => if later x r then x :: insertByTime r rest else r :: x :: rest

/-- The saved flows, the last updated first; of those updated at one time, the last inserted first. -/
def listing (s : Store) : List FlowRow := s.flows.foldl (fun sorted r => insertByTime r sorted) []

/-- The name of a setting in lower case. -/
def settingName (key : Value) : Except Fault Value :=
  match key with
  | .text s => .ok (.text (Text.lower s))
  | .bytes bs => .ok (.bytes (bs.map fun b => if 0x41 ≤ b && b ≤ 0x5a then b + 0x20 else b))
  | _ => .error (.noAttribute key.kind "lower")

/-- The value of a setting. -/
def setting? (s : Store) (key : Value) : Except Fault (Option Value) := do
  let name ← Cell.ofValue 1 (← settingName key)
  return (s.settings.find? fun r => r.key.holds name).map fun r => r.value.toValue

/-- Writes a setting. -/
def putSetting (s : Store) (r : Setting) : Except Fault Store :=
  if r.value.isNull then .error (.requiredColumn "settings" "value")
  else if s.settings.any fun old => old.key.holds r.key then
    .ok { s with settings := s.settings.map fun old => if old.key.holds r.key then { r with key := old.key } else old }
  else .ok { s with settings := s.settings ++ [r] }

/-- Writes a setting at a time, and gives the record of it. -/
def setSetting (s : Store) (now : String) (key value : Value) : Except Fault (Store × Value) := do
  let name ← settingName key
  let row : Setting := ⟨← Cell.ofValue 1 name, ← Cell.ofValue 2 value, .text now⟩
  let store ← s.putSetting row
  return (store, .object [("key", name), ("value", value), ("updated_at", .text now)])

/-- Removes a setting; tells whether there was one. -/
def unset (s : Store) (key : Value) : Except Fault (Store × Bool) := do
  let name ← Cell.ofValue 1 (← settingName key)
  return ({ s with settings := s.settings.filter fun r => !r.key.holds name },
    s.settings.any fun r => r.key.holds name)

end Store

/-- The environment: variables by name. -/
abbrev Environment := List (String × String)

/-- A variable, or another text if there is none. -/
def Environment.valueD (env : Environment) (name other : String) : String :=
  ((env.find? fun v => v.1 = name).map (·.2)).getD other

/-- A variable without the blanks around it; empty if there is none. -/
def Environment.stripped (env : Environment) (name : String) : String := Text.strip (env.valueD name "")

/-- A setting from the store; else a variable of the environment that is not blank; else a default. -/
def resolveSetting (env : Environment) (store : Option Store) (key : Value) (variableName : String)
    (default : Value) : Except Fault Value := do
  let kept ← match store with
    | some s => s.setting? key
    | none => pure none
  match kept with
  | some v => return v
  | none =>
    let text := env.stripped variableName
    return if text.isEmpty then default else .text text

end BlockFlow
