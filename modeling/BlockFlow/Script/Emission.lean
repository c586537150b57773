import BlockFlow.Measure
import BlockFlow.Script.Node
import BlockFlow.Script.Statement

/-!
From a flow to the body of a script. A chain starts at every block that no edge points at. A block with a body takes what
it points at into that body, each on its own; any other block is followed by what it points at, in the same list. No
block comes again on its own path, and what no chain has reached comes at the end, marked as disconnected.

* `Site`, `Plan`: the blocks by key, and the edges between keys.
* `Plan.emit`: the nodes of a list of pending blocks, with what has been visited on this path and emitted anywhere.
* `Plan.body`: the whole body.
-/

namespace BlockFlow.Script

/-- A block with its key. -/
structure Site where
  key : Key
  block : Block

/-- The blocks of a flow in order, and its edges as pairs of keys. -/
structure Plan where
  sites : List Site
  links : List (Key × Key)

namespace Plan

/-- The plan of a flow, whose identifiers have to be keys. -/
def ofFlow (f : Flow) : Except Fault Plan := do
  let sites ← f.blocks.mapM fun b => b.id.key.map fun k => Site.mk k b
  let sources ← f.edges.mapM fun e => e.source.key
  let targets ← f.edges.mapM fun e => e.target.key
  return ⟨sites, sources.zip targets⟩

/-- A block of the plan. -/
abbrev Place (p : Plan) := { s : Site // s ∈ p.sites }

/-- The last block of a key. -/
def find? (p : Plan) (k : Key) : Option p.Place :=
  match h : p.sites.reverse.find? fun s => s.key == k with
  | none => none
  | some s => some ⟨s, List.mem_reverse.1 (List.mem_of_find?_eq_some h)⟩

/-- The blocks that a block points at, in the order of the edges. -/
def targets (p : Plan) (k : Key) : List p.Place :=
  (p.links.filter fun l => l.1 == k).filterMap fun l => p.find? l.2

/-- The blocks that no edge points at. -/
def entries (p : Plan) : List p.Place :=
  p.sites.attach.filter fun s => !p.links.any fun l => l.2 == s.1.key

/-- Where chains start: the entries, or the first block if every block is pointed at. -/
def starts (p : Plan) : List p.Place := if p.entries.isEmpty then p.sites.attach.take 1 else p.entries

/-- How many blocks have not been visited. -/
def unvisited (p : Plan) (visited : List Key) : Nat := p.sites.countP fun s => !visited.contains s.key

theorem unvisited_cons_lt (p : Plan) {visited : List Key} (s : p.Place) (h : s.1.key ∉ visited) :
    p.unvisited (s.1.key :: visited) < p.unvisited visited := by
  refine countP_lt_countP s.2 (by simp [h]) (by simp) fun x hx => ?_
  simp_all

/-- Nodes, with what has been visited on their path and emitted anywhere. -/
structure Emission where
  nodes : List Node
  visited : List Key
  emitted : List Key

/-- The type of a block is one of those with a body. -/
def isControl (b : Block) : Bool := Palette.controlTypes.contains (typeName b)

/-- The node of a block without body. A type that has no statement becomes a comment. -/
def statementNode (b : Block) : Node :=
  match statement? b with
  | some text => .statement text b.id
  | none => .comment ("Unknown block type: " ++ typeName b) b.id

/-- The node of a block with a body. -/
def structureNode (b : Block) (body : List Node) : Node :=
  let (header, closer) := (structure? b).getD ("", "")
  .block header body closer b.id

mutual

/-- The nodes of pending blocks, one after the other. A block that has been visited is passed over; one without body
puts what it points at in front of those that are still pending. -/
def emit (p : Plan) (visited emitted : List Key) : List p.Place → Emission
  | [] => ⟨[], visited, emitted⟩
  | s :: pending =>
    if _h : s.1.key ∈ visited then emit p visited emitted pending
    else if isControl s.1.block then
      let (body, seen) := emitBody p (s.1.key :: visited) (s.1.key :: emitted) (p.targets s.1.key)
      let rest := emit p (s.1.key :: visited) seen pending
      { rest with nodes := structureNode s.1.block body :: rest.nodes }
    else
      let rest := emit p (s.1.key :: visited) (s.1.key :: emitted) (p.targets s.1.key ++ pending)
      { rest with nodes := statementNode s.1.block :: rest.nodes }
termination_by pending => (p.unvisited visited, pending.length, 0)
decreasing_by
  · right; left; simp
  · left; exact p.unvisited_cons_lt s _h
  · left; exact p.unvisited_cons_lt s _h
  · left; exact p.unvisited_cons_lt s _h

/-- The nodes of a body: each child on its own path, all of them counting as emitted. -/
def emitBody (p : Plan) (visited emitted : List Key) : List p.Place → List Node × List Key
  | [] => ([], emitted)
  | c :: rest =>
    let first := emit p visited emitted [c]
    let (nodes, seen) := emitBody p visited first.emitted rest
    (first.nodes ++ nodes, seen)
termination_by children => (p.unvisited visited, children.length, 1)
decreasing_by
  · right
    by_cases h : rest = []
    · subst h; right; simp
    · left
      have := List.length_pos_iff.2 h
      simp only [List.length_cons, List.length_nil]
      omega
  · right; left; simp

end

/-- The blocks that no chain has reached: each after a blank line and a comment, going on only to what is not yet
emitted. Also gives their number. -/
def emitRest (p : Plan) (emitted : List Key) : List p.Place → List Node × Nat
  | [] => ([], 0)
  | s :: rest =>
    if s.1.key ∈ emitted then p.emitRest emitted rest
    else
      let fragment := p.emit emitted emitted [s]
      let (nodes, count) := p.emitRest fragment.emitted rest
      (.blank .null :: .comment ("Disconnected block: " ++ typeName s.1.block) .null :: fragment.nodes ++ nodes,
        count + 1)

/-- What comes from the starts, and what is left. -/
structure Body where
  reached : List Node
  fragments : List Node
  disconnected : Nat

/-- The body of the script of a plan. -/
def body (p : Plan) : Body :=
  let main := p.emit [] [] p.starts
  let (nodes, count) := p.emitRest main.emitted p.sites.attach
  ⟨main.nodes, nodes, count⟩

end Plan

end BlockFlow.Script
