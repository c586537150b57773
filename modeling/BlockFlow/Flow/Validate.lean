import BlockFlow.Flow.Edit
import BlockFlow.Value.Order

/-!
What is wrong with a block or a flow. Findings are complaints in a fixed order.

* `Block.findings`: parameters that the palette does not know or whose value it does not allow.
* `Flow.findings`: repeated identifiers, ends that are missing, repeated pairs, circles, and caches that do not tell
  the edges.
-/

namespace BlockFlow

/-- A finding. -/
def finding (message : String) (details : Value) : Complaint := Complaint.make .validation (.text message) details

namespace Block

/-- What is wrong with a value under a name that the palette knows. -/
def valueFinding (b : Block) (name value : Value) (p : Param) : Option Complaint :=
  let details : Value := .object [("block_id", b.id), ("param", name)]
  let parameter := "Parameter '" ++ name.display ++ "' must be "
  match p.type with
  | .select =>
    let allowed : Value := .list (p.values.map .text)
    if p.values.any fun s => value.isText s then none
    else some (finding (parameter ++ "one of " ++ allowed.inspect ++ ", got " ++ value.inspect) details)
  | .number => if value.isNumeric then none else some (finding (parameter ++ "numeric, got " ++ value.inspect) details)
  | .boolean =>
    match value with
    | .bool _ => none
    | _ => some (finding (parameter ++ "a boolean, got " ++ value.inspect) details)
  | .text => none

/-- What is wrong with one parameter. -/
def paramFinding (b : Block) (k : BlockKind) (entry : Value × Value) : Option Complaint :=
  match k.param? entry.1 with
  | none =>
    some (finding ("Block " ++ b.id.display ++ " has unexpected parameter '" ++ entry.1.display ++ "'")
      (.object [("block_id", b.id), ("param", entry.1)]))
  | some p => b.valueFinding entry.1 entry.2 p

/-- What is wrong with a block. -/
def findings (b : Block) : Except Fault (List Complaint) := do
  match ← Palette.find? b.type with
  | none => return [finding ("Unknown block type: " ++ b.type.display) (.object [("block_id", b.id)])]
  | some k => return (← b.params.entriesFor "items").filterMap (b.paramFinding k)

end Block

namespace Flow

/-- The keys of the blocks, and a finding for each identifier that comes again. -/
def blockFindings (seen : List Key) : List Block → Except Fault (List Key × List Complaint)
  | [] => .ok (seen, [])
  | b :: rest => do
    let k ← b.id.key
    let (keys, more) ← blockFindings (if k ∈ seen then seen else k :: seen) rest
    return (keys, if k ∈ seen then finding ("Duplicate block id: " ++ b.id.display) .null :: more else more)

/-- Findings about the ends and the pair of each edge. -/
def edgeFindings (ids : List Key) (pairs : List (Key × Key)) : List Edge → Except Fault (List Complaint)
  | [] => .ok []
  | e :: rest => do
    let s ← e.source.key
    let t ← e.target.key
    let about := "Edge " ++ e.id.display ++ " references missing "
    let missingSource :=
      if s ∈ ids then [] else [finding (about ++ "source block: " ++ e.source.display) .null]
    let missingTarget :=
      if t ∈ ids then [] else [finding (about ++ "target block: " ++ e.target.display) .null]
    let repeated :=
      if (s, t) ∈ pairs then
        [finding ("Duplicate connection " ++ e.source.display ++ " -> " ++ e.target.display) .null]
      else []
    return missingSource ++ missingTarget ++ repeated ++ (← edgeFindings ids ((s, t) :: pairs) rest)

/-- The cache of a block tells its edges, up to order. -/
def cacheCurrent (f : Flow) (b : Block) : Except Fault Bool := do
  let outputs ← Value.sort ((f.outgoing b.id).map (·.target))
  let inputs ← Value.sort ((f.incoming b.id).map (·.source))
  if !Value.sameAll (← Value.sort b.cache.outputs) outputs then return false
  return Value.sameAll (← Value.sort b.cache.inputs) inputs

/-- A finding for each cache that does not tell its edges. -/
def cacheFindings (f : Flow) : List Block → Except Fault (List Complaint)
  | [] => .ok []
  | b :: rest => do
    let current ← f.cacheCurrent b
    let more ← f.cacheFindings rest
    return if current then more
      else finding ("Connection cache of block " ++ b.id.display ++ " is out of date") .null :: more

/-- What is wrong with a flow. -/
def findings (f : Flow) : Except Fault (List Complaint) := do
  let (ids, repeated) ← blockFindings [] f.blocks
  let edges ← edgeFindings ids [] f.edges
  let circle := if ← f.hasCycle then [finding "Flow contains circular connections" .null] else []
  return repeated ++ edges ++ circle ++ (← f.cacheFindings f.blocks)

end Flow

end BlockFlow
