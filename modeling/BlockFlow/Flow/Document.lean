import BlockFlow.Act
import BlockFlow.Flow.Edit
import BlockFlow.Json.Source
import BlockFlow.Json.Writer

/-!
Flows as documents. A flow is written with all of its fields; what is read may leave most of them out.

* `Block.document`, `Flow.document`, `Flow.exportText`: writing.
* `Block.ofDocument`, `Edge.ofDocument`, `Flow.ofDocument`: reading without checks. An edge without identifier takes a
  fresh one.
* `Flow.ofData`, `Flow.importText`: reading with checks. What cannot be read is a complaint about the format; only a number
  that is too large, or a field of the wrong sort where a dictionary has to be, is reported as it is.
-/

namespace BlockFlow

/-- Steps that draw fresh identifiers: the state is the number of the next one. -/
abbrev Drawing := Act Nat

/-- A fresh identifier of a sort of things. -/
def drawId (sort : String) : Drawing Value := do
  let n ← get
  set (n + 1)
  return drawnId sort (intText n)

/-- A block as a document. -/
def Block.document (b : Block) : Except Fault Value := do
  let x ← b.position.nth 0
  let y ← b.position.nth 1
  let params ← b.params.toEntries
  return .object [("id", b.id), ("type", b.type), ("position", .object [("x", x), ("y", y)]),
    ("params", .dict params),
    ("connections", .object [("inputs", .list b.cache.inputs), ("outputs", .list b.cache.outputs)])]

/-- A position as it is read: coordinates by name, or the first two parts of a list. -/
def documentPosition (v : Value) : Value :=
  match v with
  | .dict entries =>
    .tuple [Entries.fieldD entries "x" defaultCoordinate, Entries.fieldD entries "y" defaultCoordinate]
  | _ => v

/-- A block from a document. -/
def Block.ofDocument (doc : Value) : Except Fault Block := do
  let position := documentPosition ((← doc.get "position" .null).orElse (.dict []))
  let connections := (← doc.get "connections" .null).orElse (.dict [])
  let id ← doc.require "id"
  let type ← doc.require "type"
  let place ← readPosition position
  let params ← ((← doc.get "params" .null).orElse (.dict [])).toEntries
  let inputs ← (← connections.get "inputs" (.list [])).toList
  let outputs ← (← connections.get "outputs" (.list [])).toList
  return ⟨id, type, place, .dict params, ⟨inputs, outputs⟩⟩

/-- An edge from a document. -/
def Edge.ofDocument (doc : Value) : Drawing Edge := do
  let given ← Act.ofExcept (doc.get "id" .null)
  let id ← if given.truthy then pure given else drawId "edge"
  let source ← Act.ofExcept (doc.require "source")
  let target ← Act.ofExcept (doc.require "target")
  let sourceHandle ← Act.ofExcept (doc.get "sourceHandle" (.text "output"))
  let targetHandle ← Act.ofExcept (doc.get "targetHandle" (.text "input"))
  return ⟨id, source, target, sourceHandle, targetHandle⟩

/-- Edges from documents, in order. -/
def Edge.ofDocuments : List Value → Drawing (List Edge)
  | [] => pure []
  | doc :: rest => do
    let e ← Edge.ofDocument doc
    return e :: (← Edge.ofDocuments rest)

/-- The document of a block leaves its connections out. -/
def lacksConnections (doc : Value) : Bool :=
  match doc with
  | .dict entries => !Entries.contains entries (.text "connections")
  | _ => false

namespace Flow

/-- A time as a field, if it is known. -/
def timeField (name : String) (v : Value) : List (String × Value) :=
  match v with
  | .null => []
  | _ => [(name, v)]

/-- A flow as a document. -/
def document (f : Flow) : Except Fault Value := do
  let blocks ← f.blocks.mapM Block.document
  return .object ([("id", f.id), ("name", f.name), ("blocks", .list blocks),
    ("edges", .list (f.edges.map Edge.document))] ++ timeField "createdAt" f.createdAt ++
    timeField "updatedAt" f.updatedAt)

/-- A flow as text. -/
def exportText (f : Flow) : Except Fault String := do Json.indented (← f.document)

/-- A flow from a document, without checks. If a block leaves its connections out, all caches are made anew. -/
def ofDocument (doc : Value) : Drawing Flow := do
  let raw ← Act.ofExcept (doc.get "blocks" (.list []))
  let id ← Act.ofExcept (doc.require "id")
  let name ← Act.ofExcept (doc.get "name" (.text "My Flow"))
  let docs ← Act.ofExcept raw.toList
  let blocks ← Act.ofExcept (docs.mapM Block.ofDocument)
  let edgeDocs ← Act.ofExcept ((← Act.ofExcept (doc.get "edges" (.list []))).toList)
  let edges ← Edge.ofDocuments edgeDocs
  let createdAt ← Act.ofExcept (doc.get "createdAt" .null)
  let updatedAt ← Act.ofExcept (doc.get "updatedAt" .null)
  let flow : Flow := ⟨id, name, blocks, edges, createdAt, updatedAt⟩
  if docs.any lacksConnections then
    let (rebuilt, outcome) := flow.rebuild
    Act.ofExcept outcome
    return rebuilt
  else return flow

/-- A complaint about the format of a flow. -/
def badFormat (reason : String) (details : Value) : Fault :=
  .complaint (Complaint.make .format (.text ("Invalid flow format: " ++ reason)) details)

/-- A value is a dictionary with these fields. -/
def hasFields (v : Value) (names : List String) : Bool :=
  match v with
  | .dict entries => names.all fun n => Entries.contains entries (.text n)
  | _ => false

/-- Complains about the first document of a list that lacks a field. -/
def checkFields (label needs : String) (names : List String) (position : Nat) : List Value → Except Fault Unit
  | [] => .ok ()
  | doc :: rest =>
    if hasFields doc names then checkFields label needs names (position + 1) rest
    else
      .error (badFormat (label ++ "[" ++ intText position ++ "] needs " ++ needs)
        (.object [("index", .int position)]))

/-- The parts of a document have the sorts that reading relies on. -/
def checkData (doc : Value) : Except Fault Unit :=
  match doc with
  | .dict entries =>
    if !(Entries.fieldD entries "id" .null).truthy then .error (badFormat "missing flow id" .null)
    else
      match Entries.fieldD entries "blocks" .null, Entries.fieldD entries "edges" .null with
      | .list blocks, .list edges => do
        checkFields "blocks" "an id and a type" ["id", "type"] 0 blocks
        checkFields "edges" "a source and a target" ["source", "target"] 0 edges
      | _, _ => .error (badFormat "blocks and edges must be lists" .null)
  | _ => .error (badFormat "expected a JSON object" .null)

/-- Families of faults that mean that a document cannot be read. -/
def isUnreadable (f : Fault) : Bool :=
  match f.family with
  | .type | .value | .key | .index => true
  | _ => false

/-- A fault of reading as a complaint about the format, if it means that. -/
def asFormat (f : Fault) : Fault := if isUnreadable f then badFormat f.message .null else f

/-- A flow from a document, with checks. -/
def ofData (doc : Value) : Drawing Flow := do
  Act.ofExcept (checkData doc)
  tryCatch (ofDocument doc) fun f => throw (asFormat f)

/-- A flow from the text of a document. -/
def importText (text : Value) : Drawing Flow :=
  match Json.parse text with
  | .error f => throw (asFormat f)
  | .ok doc => ofData doc

end Flow

end BlockFlow
