import BlockFlow.Value.Access

/-!
Flows: blocks, the edges between them, and how to look things up. Identifiers are values, and the first block or edge
of an identifier is the one that is meant.

* `Block`, `Edge`, `Flow`: the drawing.
* `drawnId`: the identifiers of new things.
* `Flow.block?`, `Flow.edge?`, `Flow.between?`: look-ups.
* `Flow.outgoing`, `Flow.incoming`: the edges at a block.
* `Flow.updateBlock`: a change of the first block of an identifier.
-/

namespace BlockFlow

/-- The blocks wired into and out of a block, by identifier, as the block itself remembers them. -/
structure Cache where
  inputs : List Value := []
  outputs : List Value := []

/-- A block: a step of the program that is drawn. -/
structure Block where
  id : Value
  type : Value
  position : Value
  params : Value
  cache : Cache := {}

/-- A directed edge from the output of a block to the input of another. -/
structure Edge where
  id : Value
  source : Value
  target : Value
  sourceHandle : Value := .text "output"
  targetHandle : Value := .text "input"

/-- A drawing of blocks and edges. A time is `null` until it is known. -/
structure Flow where
  id : Value
  name : Value := .text "My Flow"
  blocks : List Block := []
  edges : List Edge := []
  createdAt : Value := .null
  updatedAt : Value := .null

/-- The identifier of a new thing of a sort, by the mark that was drawn for it. -/
def drawnId (sort mark : String) : Value := .text (sort ++ "-" ++ mark)

/-- The coordinate at which blocks are put. -/
def defaultCoordinate : Value := .real (Binary64.ofRatio false 100 1)

/-- Where a block is put. -/
def defaultPosition : Value := .tuple [defaultCoordinate, defaultCoordinate]

/-- A new block of a type, without parameters. -/
def Block.fresh (id type position : Value) : Block := ⟨id, type, position, .dict [], {}⟩

namespace Flow

/-- The first block of an identifier. -/
def block? (f : Flow) (id : Value) : Option Block := f.blocks.find? fun b => b.id.equal id

/-- The first edge of an identifier. -/
def edge? (f : Flow) (id : Value) : Option Edge := f.edges.find? fun e => e.id.equal id

/-- The first edge of an ordered pair. -/
def between? (f : Flow) (source target : Value) : Option Edge :=
  f.edges.find? fun e => e.source.equal source && e.target.equal target

def outgoing (f : Flow) (id : Value) : List Edge := f.edges.filter fun e => e.source.equal id

def incoming (f : Flow) (id : Value) : List Edge := f.edges.filter fun e => e.target.equal id

/-- Changes the first element that passes a test. -/
def modifyFirst {α : Type} (test : α → Bool) (change : α → α) : List α → List α
  | [] => []
  | x :: rest => if test x then change x :: rest else x :: modifyFirst test change rest

/-- Changes the first block of an identifier. -/
def updateBlock (f : Flow) (id : Value) (change : Block → Block) : Flow :=
  { f with blocks := modifyFirst (fun b => b.id.equal id) change f.blocks }

end Flow

end BlockFlow
