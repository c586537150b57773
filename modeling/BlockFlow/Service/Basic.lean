import BlockFlow.Service.Request
import BlockFlow.Service.Route
import BlockFlow.Session

/-!
The service: requests answered over one session.

* `Reply`: a status and a body.
* `Service.serve`: the answer of an endpoint.
* `Service.respond`: the answer to a request. A fault that no endpoint answers itself is an answer of status 500, and what
  was changed before it stays changed.
* `Service.start`: the session is opened to listeners; gives the secret of the service.
-/

namespace BlockFlow

/-- The body of an answer: a JSON document, a text that was exported, a page, or nothing. -/
inductive Reply.Body where
  | json (v : Value)
  | text (s : String)
  | page
  | empty

/-- An answer. -/
structure Reply where
  status : Nat
  body : Reply.Body

namespace Service

/-- An answer with a JSON document. Its keys are put in order, which not all keys allow. -/
def json (status : Nat) (fields : List (String × Value)) : Work Reply :=
  return ⟨status, .json (← Act.ofExcept (Json.normal (.object fields)))⟩

/-- An answer with data. -/
def data (status : Nat) (v : Value) : Work Reply := json status [("success", .bool true), ("data", v)]

/-- An answer that tells what is wrong. -/
def error (status : Nat) (message : String) : Work Reply :=
  json status [("success", .bool false), ("error", .text message)]

/-- An answer with feedback. -/
def feedback (status : Nat) (f : Feedback) (v : Value) : Work Reply :=
  json status [("success", .bool f.ok), ("feedback", f.document), ("data", v.orElse (.dict []))]

/-- An answer that tells whether something was there. -/
def verdict (name : String) (found : Bool) : Work Reply :=
  json (if found then 200 else 404) [("success", .bool found), ("data", .object [(name, .bool found)])]

/-- The document of the flow being edited. -/
def flowDocument : Work Value := do Act.ofExcept (← Work.flow).document

/-- A position as a pair of numbers: coordinates by name, or the first two parts of a value. -/
def position (raw : Value) : Except Fault Value :=
  match raw with
  | .null => .ok .null
  | .dict es => do
    let x ← (Entries.fieldD es "x" (.int 0)).toReal
    let y ← (Entries.fieldD es "y" (.int 0)).toReal
    return .tuple [.real x, .real y]
  | _ => readPosition raw

def rename (v : Value) : Work Reply := do
  let name ← Act.ofExcept (v.get "name" .null)
  if name.truthy then
    Session.rename (.text name.display)
    data 200 (← flowDocument)
  else error 400 "A flow name is required"

def newFlow (v : Value) : Work Reply := do
  let name ← Act.ofExcept (v.get "name" .null)
  let f ← Session.newFlow (name.orElse (.text "My Flow"))
  feedback 200 f (← flowDocument)

/-- A step with a position; one that cannot be read as such is answered at once. -/
def withPosition (raw : Value) (step : Value → Work Reply) : Work Reply := do
  match position raw with
  | .ok p => step p
  | .error fault => if Flow.isUnreadable fault then error 400 "Invalid position" else Act.fail fault

def addBlock (v : Value) : Work Reply := do
  let type ← Act.ofExcept (v.get "type" .null)
  if type.truthy then
    withPosition (← Act.ofExcept (v.get "position" .null)) fun p => do
      let b ← Session.addBlock type p
      data 201 (← Act.ofExcept b.document)
  else error 400 "A block type is required"

def setParam (id : String) (v : Value) : Work Reply := do
  if ← Act.ofExcept (v.contains (.text "key")) then
    let key ← Act.ofExcept (v.require "key")
    let value ← Act.ofExcept (v.get "value" .null)
    if ← Session.setParam (.text id) key value then
      match (← Work.flow).block? (.text id) with
      | some b => data 200 (← Act.ofExcept b.document)
      | none => error 404 ("Block " ++ id ++ " not found")
    else error 404 ("Block " ++ id ++ " not found")
  else error 400 "A parameter key is required"

def move (id : String) (v : Value) : Work Reply := do
  let raw ← Act.ofExcept (v.get "position" (.list [.int 0, .int 0]))
  withPosition raw fun p => do verdict "moved" (← Session.move (.text id) p)

def removeBlock (id : String) : Work Reply := do
  let f ← Session.removeBlock (.text id)
  feedback (if f.ok then 200 else 404) f (.dict [])

def addEdge (v : Value) : Work Reply := do
  let source ← Act.ofExcept (v.get "source" .null)
  let target ← Act.ofExcept (v.get "target" .null)
  if source.truthy && target.truthy then
    let fresh ← Canvas.newEdge source target
    let e := { fresh with id := (← Act.ofExcept (v.get "id" .null)).orElse fresh.id }
    match ← Session.addEdge e with
    | (true, f) => feedback 201 f e.document
    | (false, f) => feedback 409 f (.dict [])
  else error 400 "Both source and target are required"

def code : Work Reply := do
  let text := (← get).code
  let warnings ← Session.warnings
  data 200 (.object [("code", .text text), ("warnings", .list (warnings.map .text))])

def run : Work Reply := do
  let (report, f) ← Session.run
  feedback 200 f report.document

/-- A saved flow in a listing. -/
def summary (f : Flow) : Value :=
  .object [("id", f.id), ("name", f.name), ("createdAt", f.createdAt), ("updatedAt", f.updatedAt),
    ("blocks", .int f.blocks.length), ("edges", .int f.edges.length)]

/-- A step whose faults are answered with their message. -/
def guarded (purpose : String) (step : Work Reply) : Work Reply := do
  match ← Act.attempt step with
  | .ok r => return r
  | .error fault =>
    Work.note .service .error ("Failed to " ++ purpose ++ ": " ++ fault.message)
    error 500 fault.message

/-- A step with a saved flow, if there is one of that identifier. -/
def withSaved (id : String) (step : Flow → Work Reply) : Work Reply := do
  match ← Archive.load (.text id) with
  | some f => step f
  | none => error 404 ("Flow " ++ id ++ " not found")

def loadFlow (id : String) : Work Reply := do
  let f ← Session.load (.text id)
  feedback (if f.ok then 200 else 404) f (← flowDocument)

def importFlow (text : String) : Work Reply := do
  let f ← Session.importText (.text text)
  feedback (if f.ok then 200 else 400) f (← flowDocument)

/-- The answer of an endpoint. There are no files among the assets. -/
def serve (r : Request) : Endpoint → Work Reply
  | .health => json 200 [("status", .text "ok")]
  | .palette => data 200 Palette.document
  | .flow => do data 200 (← flowDocument)
  | .rename => rename r.data
  | .newFlow => newFlow r.data
  | .clear => do feedback 200 (← Session.clear) (← flowDocument)
  | .exportFlow => return ⟨200, .text (← Session.exportText)⟩
  | .blocks => do data 200 (.list (← Act.ofExcept ((← Work.flow).blocks.mapM Block.document)))
  | .addBlock => addBlock r.data
  | .setParam id => setParam id r.data
  | .move id => move id r.data
  | .removeBlock id => removeBlock id
  | .edges => do data 200 (.list ((← Work.flow).edges.map Edge.document))
  | .addEdge => addEdge r.data
  | .removeEdge id => do verdict "removed" (← Session.removeEdge (.text id))
  | .code => code
  | .run => run
  | .savedFlows => guarded "list flows" do data 200 (.list ((← Archive.list).map summary))
  | .saveFlow => guarded "save flow" do feedback 200 (← Session.save) (← flowDocument)
  | .savedFlow id => withSaved id fun f => do data 200 (← Act.ofExcept f.document)
  | .loadFlow id => loadFlow id
  | .deleteFlow id => do verdict "deleted" (← Archive.delete (.text id))
  | .exportSaved id => withSaved id fun f => return ⟨200, .text (← Act.ofExcept f.exportText)⟩
  | .importFlow => importFlow (r.body.getD "")
  | .asset => return ⟨404, .page⟩

/-- The answer as the method wants it: to ask for the head only is to get no document. -/
def forVerb (verb : String) (r : Reply) : Reply :=
  match r.body with
  | .page => r
  | _ => if verb = "HEAD" then { r with body := .empty } else r

/-- The answer to a request. -/
def respond (r : Request) : Work Reply := do
  match Route.find r.verb r.path with
  | .unknown => return ⟨404, .page⟩
  | .wrongMethod => return ⟨405, .page⟩
  | .moved => return ⟨308, .page⟩
  | .options => return ⟨200, .page⟩
  | .to endpoint =>
    match ← Act.attempt (serve r endpoint) with
    | .ok reply => return forVerb r.verb reply
    | .error _ =>
      Work.note .service .error ("Exception on " ++ r.path ++ " [" ++ r.verb ++ "]")
      return ⟨500, .page⟩

/-- Opens the session to listeners; gives the secret of the service. -/
def start : Work Value := do
  let s ← Archive.store
  let secret ← Act.ofExcept (resolveSetting (← get).environment (some s) (.text "secret_key")
    "BLOCKFLOW_SECRET_KEY" (.text "block-coding-secret-key"))
  modify fun w => { w with listening := true }
  return secret

end Service

end BlockFlow
