import BlockFlow.Flow.Basic
import BlockFlow.Measure
import BlockFlow.Value.KeySet

/-!
Circular connections. The edges of a flow give each identifier the list of identifiers it points at, and a search in
depth from a start finds whether it runs into its own path.

* `Row`, `Flow.adjacency`: the identifiers of a flow with the identifiers they point at.
* `Link`, `Graph`, `Graph.Index`: who points at whom, as a list and as a table.
* `Graph.search`: whether a circle is reached from a start, and what has been visited then. What an earlier search has
  visited is not entered again.
* `Flow.hasCycle`, `Flow.wouldCycle`: the search over all of a flow, and from the source of an edge that is not yet
  part of it.
-/

namespace BlockFlow

/-- An identifier with the identifiers it points at. -/
structure Row where
  id : Value
  key : Key
  targets : List Value

/-- Makes sure that an identifier has a row. -/
def ensureRow (rows : List Row) (id : Value) : Except Fault (List Row) :=
  match id.key with
  | .error f => .error f
  | .ok k => .ok (if rows.any fun r => r.key == k then rows else rows ++ [⟨id, k, []⟩])

/-- Lets an identifier point at another one as well. -/
def addTarget (rows : List Row) (source target : Value) : Except Fault (List Row) :=
  match source.key with
  | .error f => .error f
  | .ok k =>
    .ok (if rows.any fun r => r.key == k then
        rows.map fun r => if r.key == k then { r with targets := r.targets ++ [target] } else r
      else rows ++ [⟨source, k, [target]⟩])

/-- The rows of a list of edges, added to those that are there. -/
def edgeRows (rows : List Row) : List Edge → Except Fault (List Row)
  | [] => .ok rows
  | e :: rest =>
    match addTarget rows e.source e.target with
    | .error f => .error f
    | .ok more => edgeRows more rest

/-- A row for each of the blocks. -/
def blockRows (rows : List Row) : List Block → Except Fault (List Row)
  | [] => .ok rows
  | b :: rest =>
    match ensureRow rows b.id with
    | .error f => .error f
    | .ok more => blockRows more rest

/-- The identifiers of a flow with the identifiers they point at. -/
def Flow.adjacency (f : Flow) : Except Fault (List Row) :=
  match blockRows [] f.blocks with
  | .error f => .error f
  | .ok rows => edgeRows rows f.edges

/-- A key that points at a value. -/
structure Link where
  source : Key
  target : Value

/-- Who points at whom; the links of one key are in order. -/
abbrev Graph := List Link

namespace Graph

def ofRows (rows : List Row) : Graph := rows.flatMap fun r => r.targets.map (Link.mk r.key)

/-- The links of edges. -/
def ofEdges (edges : List Edge) : Except Fault Graph := edges.mapM fun e => e.source.key.map fun k => ⟨k, e.target⟩

/-- The links of a key. -/
def next (g : Graph) (k : Key) : List { l : Link // l ∈ g } := g.attach.filter fun l => l.1.source == k

/-- The links of a graph, ready to be looked up. -/
structure Index (g : Graph) where
  table : Std.HashMap Key (List { l : Link // l ∈ g })
  lawful : ∀ k, table.getD k [] = g.next k

namespace Index

/-- Links by their source. -/
def tableOf {g : Graph} : List { l : Link // l ∈ g } → Std.HashMap Key (List { l : Link // l ∈ g })
  | [] => ∅
  | l :: rest => (tableOf rest).insert l.1.source (l :: (tableOf rest).getD l.1.source [])

theorem getD_tableOf {g : Graph} (ls : List { l : Link // l ∈ g }) (k : Key) :
    (tableOf ls).getD k [] = ls.filter fun l => l.1.source == k := by
  induction ls with
  | nil => simp [tableOf]
  | cons l rest ih =>
    rw [tableOf, Std.HashMap.getD_insert]
    by_cases h : l.1.source = k
    · subst h
      simp [ih]
    · simp [h, ih]

def build (g : Graph) : Index g := ⟨tableOf g.attach, getD_tableOf g.attach⟩

/-- The links of a key. -/
def next {g : Graph} (ix : Index g) (k : Key) : List { l : Link // l ∈ g } := ix.table.getD k []

@[simp] theorem next_eq {g : Graph} (ix : Index g) (k : Key) : ix.next k = g.next k := ix.lawful k

end Index

/-- A node on the path, with those of its links that have not been looked at. -/
structure Frame (g : Graph) where
  node : Key
  rest : List { l : Link // l ∈ g }

/-- The nodes of a path. -/
def path {g : Graph} (stack : List (Frame g)) : List Key := stack.map (·.node)

/-- The link leads to what has not been visited. -/
def isUnseen (visited : List Key) (l : Link) : Bool :=
  match l.target.key with
  | .ok k => !visited.contains k
  | .error _ => false

/-- How many links lead to what has not been visited. -/
def unseen (g : Graph) (visited : List Key) : Nat := g.countP (isUnseen visited)

theorem unseen_insert_lt {g : Graph} {visited : KeySet} {k : Key} {l : Link} (hl : l ∈ g)
    (hk : l.target.key = .ok k) (hnew : k ∉ visited.members) :
    g.unseen (visited.insert k).members < g.unseen visited.members := by
  rw [KeySet.members_insert, if_neg hnew]
  refine countP_lt_countP hl (by simp [isUnseen, hk, hnew]) (by simp [isUnseen, hk]) fun x hx => ?_
  unfold isUnseen at hx ⊢
  split <;> simp_all

/-- How many links of a path have not been looked at, with one for each node. -/
def pendingLinks {g : Graph} : List (Frame g) → Nat
  | [] => 0
  | fr :: below => fr.rest.length + 1 + pendingLinks below

theorem pendingLinks_leave {g : Graph} (fr : Frame g) (below : List (Frame g)) :
    pendingLinks below < pendingLinks (fr :: below) := by
  rw [pendingLinks]
  omega

theorem pendingLinks_pass {g : Graph} (node : Key) (l : { l : Link // l ∈ g }) (rest : List { l : Link // l ∈ g })
    (below : List (Frame g)) : pendingLinks (⟨node, rest⟩ :: below) < pendingLinks (⟨node, l :: rest⟩ :: below) := by
  simp [pendingLinks]

/-- Goes on with the search along a path, innermost node first. All nodes of the path have been visited. -/
def walk {g : Graph} (ix : Index g) (visited : KeySet) : List (Frame g) → Except Fault (Bool × KeySet)
  | [] => .ok (false, visited)
  | ⟨_, []⟩ :: below => walk ix visited below
  | ⟨node, l :: rest⟩ :: below =>
    match _h : l.1.target.key with
    | .error f => .error f
    | .ok k =>
      if _hv : visited.contains k then
        if k ∈ node :: path below then .ok (true, visited) else walk ix visited (⟨node, rest⟩ :: below)
      else walk ix (visited.insert k) (⟨k, ix.next k⟩ :: ⟨node, rest⟩ :: below)
termination_by stack => (g.unseen visited.members, pendingLinks stack)
decreasing_by
  · right; exact pendingLinks_leave _ below
  · right; exact pendingLinks_pass node l rest below
  · left; exact unseen_insert_lt l.2 _h (by simpa using _hv)

/-- Whether a circle is reached from a key, and all that has been visited then. -/
def searchFrom {g : Graph} (ix : Index g) (k : Key) (visited : KeySet) : Except Fault (Bool × KeySet) :=
  walk ix (visited.insert k) [⟨k, ix.next k⟩]

/-- Whether a circle is reached from a value. -/
def search (g : Graph) (start : Value) (visited : KeySet) : Except Fault (Bool × KeySet) :=
  match start.key with
  | .error f => .error f
  | .ok k => searchFrom (.build g) k visited

/-- Searches from each key that no search before has visited. -/
def searchAll {g : Graph} (ix : Index g) (visited : KeySet) : List Key → Except Fault Bool
  | [] => .ok false
  | k :: rest =>
    if visited.contains k then searchAll ix visited rest
    else
      match searchFrom ix k visited with
      | .error f => .error f
      | .ok (true, _) => .ok true
      | .ok (false, more) => searchAll ix more rest

end Graph

namespace Flow

/-- The flow has circular connections. -/
def hasCycle (f : Flow) : Except Fault Bool :=
  match f.adjacency with
  | .error f => .error f
  | .ok rows => Graph.searchAll (.build (.ofRows rows)) .empty (rows.map (·.key))

/-- With this edge, a circle would be reached from its source. -/
def wouldCycle (f : Flow) (e : Edge) : Except Fault Bool :=
  match Graph.ofEdges (f.edges ++ [e]) with
  | .error f => .error f
  | .ok g =>
    match g.search e.source .empty with
    | .error f => .error f
    | .ok (found, _) => .ok found

end Flow

end BlockFlow
