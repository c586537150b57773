import BlockFlow.Flow.Cycle
import BlockFlow.Palette

/-!
Editing a flow. Blocks come and go with their edges; an edge is refused when an end is missing, when its pair is
already connected, or when it would close a circle.

* `Flow.addBlock`, `Flow.setParam`, `Flow.amend`, `Flow.move`, `Flow.removeBlock`, `Flow.clear`: blocks.
* `Flow.addEdge`, `Flow.removeEdge`, `Flow.rebuild`: edges and the caches at their ends.
* `Block.param`: a parameter, with its initial value on first use.

An edit that can stop half way gives the flow as it stands then beside its fault.
-/

namespace BlockFlow

/-- The result of an edit that keeps what it has changed when it fails. -/
abbrev Edited (α β : Type) := α × Except Fault β

/-- A parameter of a block. One that is not set takes its initial value first, if its name is known. -/
def Block.param (b : Block) (name : Value) : Edited Block Value :=
  match b.params.contains name with
  | .error f => (b, .error f)
  | .ok true => (b, b.params.item name)
  | .ok false =>
    match Palette.paramOf b.type name with
    | .error f => (b, .error f)
    | .ok none => (b, .ok .null)
    | .ok (some p) =>
      match b.params.assign name p.initial with
      | .error f => (b, .error f)
      | .ok params => ({ b with params := params }, params.item name)

/-- A position as two numbers. -/
def readPosition (position : Value) : Except Fault Value := do
  let x ← (← position.nth 0).toReal
  let y ← (← position.nth 1).toReal
  return .tuple [.real x, .real y]

/-- An edge as a document. -/
def Edge.document (e : Edge) : Value :=
  .object [("id", e.id), ("source", e.source), ("sourceHandle", e.sourceHandle), ("target", e.target),
    ("targetHandle", e.targetHandle)]

/-- The ends of an edge, for the details of a complaint. -/
def Edge.ends (e : Edge) : Value := .object [("source", e.source), ("target", e.target)]

namespace Complaint

def missingSource (e : Edge) : Complaint :=
  make (.missingBlock e.source) (.text ("Edge source " ++ e.source.display ++ " is not in the flow")) .null

def missingTarget (e : Edge) : Complaint :=
  make (.missingBlock e.target) (.text ("Edge target " ++ e.target.display ++ " is not in the flow")) .null

def alreadyConnected (e : Edge) : Complaint :=
  make (.duplicate e.document) (.text "These blocks are already connected.") e.ends

def wouldCircle (e : Edge) : Complaint :=
  make (.circular e.document) (.text "This connection would create a circular reference.") e.ends

end Complaint

namespace Flow

/-- Adds a block of a type. A position that does not count as given is the default one. -/
def addBlock (f : Flow) (id type position : Value) : Flow :=
  { f with blocks := f.blocks ++ [Block.fresh id type (position.orElse defaultPosition)] }

/-- Sets a parameter of a block. A block that is not there is passed over. -/
def setParam (f : Flow) (id key value : Value) : Except Fault Flow :=
  match f.block? id with
  | none => .ok f
  | some b =>
    match b.params.assign key value with
    | .error fault => .error fault
    | .ok params => .ok (f.updateBlock id fun b => { b with params := params })

/-- Merges parameters into those of a block. -/
def mergeParams (f : Flow) (id : Value) (b : Block) (params : Value) : Edited Flow Unit :=
  match b.params with
  | .dict entries =>
    let (merged, outcome) := Value.mergeInto entries params
    (f.updateBlock id fun b => { b with params := .dict merged }, outcome)
  | other => (f, .error (.noAttribute other.kind "update"))

/-- Changes position and parameters of a block, each where it is given. The position comes first and stays when the
parameters are refused. -/
def amend (f : Flow) (id : Value) (position params : Option Value) : Edited Flow Unit :=
  match f.block? id with
  | none => (f, .ok ())
  | some b =>
    match position.mapM readPosition with
    | .error fault => (f, .error fault)
    | .ok place =>
      let moved := match place with
        | some p => f.updateBlock id fun b => { b with position := p }
        | none => f
      match params with
      | some ps => moved.mergeParams id b ps
      | none => (moved, .ok ())

/-- Moves a block. The answer tells whether it is there. -/
def move (f : Flow) (id position : Value) : Except Fault (Flow × Bool) :=
  match f.block? id with
  | none => .ok (f, false)
  | some _ =>
    match readPosition position with
    | .error fault => .error fault
    | .ok p => .ok (f.updateBlock id fun b => { b with position := p }, true)

/-- The edges that start or end at a block. -/
def touching (f : Flow) (id : Value) : List Edge :=
  f.edges.filter fun e => e.source.equal id || e.target.equal id

/-- A cache without an identifier. -/
def forget (id : Value) (c : Cache) : Cache :=
  ⟨c.inputs.filter fun i => !i.equal id, c.outputs.filter fun o => !o.equal id⟩

/-- Removes the blocks of an identifier with all edges that touch them. -/
def dropBlock (f : Flow) (id : Value) : Flow :=
  { f with
    edges := f.edges.filter fun e => !e.source.equal id && !e.target.equal id
    blocks := (f.blocks.filter fun b => !b.id.equal id).map fun b => { b with cache := forget id b.cache } }

/-- Removes a block; also gives the number of edges that went with it, if the block was there. -/
def removeBlock (f : Flow) (id : Value) : Flow × Option Nat :=
  match f.block? id with
  | none => (f, none)
  | some _ => (f.dropBlock id, some (f.touching id).length)

def clear (f : Flow) : Flow := { f with blocks := [], edges := [] }

/-- Adds an edge without looking at it. -/
def pushEdge (f : Flow) (e : Edge) : Flow := { f with edges := f.edges ++ [e] }

/-- Adds an edge and remembers it at both ends. -/
def link (f : Flow) (e : Edge) : Flow :=
  ((f.pushEdge e).updateBlock e.source fun b =>
      { b with cache := { b.cache with outputs := b.cache.outputs ++ [e.target] } }).updateBlock e.target fun b =>
    { b with cache := { b.cache with inputs := b.cache.inputs ++ [e.source] } }

/-- Adds an edge unless it has to be refused. -/
def addEdge (f : Flow) (e : Edge) : Except Fault Flow :=
  match f.block? e.source, f.block? e.target with
  | none, _ => .error (.complaint (.missingSource e))
  | some _, none => .error (.complaint (.missingTarget e))
  | some _, some _ =>
    if (f.between? e.source e.target).isSome then .error (.complaint (.alreadyConnected e))
    else
      match f.wouldCycle e with
      | .error fault => .error fault
      | .ok true => .error (.complaint (.wouldCircle e))
      | .ok false => .ok (f.link e)

/-- Removes all edges of an identifier, and forgets the first of them at both of its ends. -/
def removeEdge (f : Flow) (id : Value) : Flow × Option Edge :=
  match f.edge? id with
  | none => (f, none)
  | some e =>
    let kept := { f with edges := f.edges.filter fun x => !x.id.equal id }
    let atSource := kept.updateBlock e.source fun b =>
      { b with cache := { b.cache with outputs := b.cache.outputs.filter fun o => !o.equal e.target } }
    (atSource.updateBlock e.target fun b =>
      { b with cache := { b.cache with inputs := b.cache.inputs.filter fun i => !i.equal e.source } }, some e)

/-- Changes the last block of a key. -/
def updateLast (k : Key) (change : Block → Block) (blocks : List (Key × Block)) : List (Key × Block) :=
  (modifyFirst (fun p => p.1 == k) (fun p => (p.1, change p.2)) blocks.reverse).reverse

/-- Remembers edges one after the other. What a fault leaves is kept. -/
def rememberAll (blocks : List (Key × Block)) : List Edge → Edited (List (Key × Block)) Unit
  | [] => (blocks, .ok ())
  | e :: rest =>
    match e.source.key with
    | .error fault => (blocks, .error fault)
    | .ok source =>
      let out := updateLast source
        (fun b => { b with cache := { b.cache with outputs := b.cache.outputs ++ [e.target] } }) blocks
      match e.target.key with
      | .error fault => (out, .error fault)
      | .ok target =>
        rememberAll (updateLast target
          (fun b => { b with cache := { b.cache with inputs := b.cache.inputs ++ [e.source] } }) out) rest

/-- Makes all caches anew from the edges. Of several blocks of one identifier the last one remembers. -/
def rebuild (f : Flow) : Edited Flow Unit :=
  match f.blocks.mapM fun b => b.id.key.map fun k => (k, b) with
  | .error fault => (f, .error fault)
  | .ok keyed =>
    let (blocks, outcome) := rememberAll (keyed.map fun p => (p.1, { p.2 with cache := {} })) f.edges
    ({ f with blocks := blocks.map (·.2) }, outcome)

end Flow

end BlockFlow
