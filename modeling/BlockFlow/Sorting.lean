import BlockFlow.Fault

/-!
Sorting by a comparison that may fail. The fault of a sort is that of the first comparison made in vain, and values that
are in no order with each other may end up anywhere, so it matters which comparisons are made.

A list is cut into runs that are in order already, short ones filled up by insertion; neighbouring runs are merged as if
they were leaves of a balanced tree over the whole list. A merge compares the next elements of both runs, and gallops once
one of the runs has won often enough in a row.

* `Sorting.bisect`, `Sorting.gallop`: how many elements at the front of a list pass a test.
* `Sorting.mergeFrom`, `Sorting.join`: two runs merged, from the front or from the back.
* `Sorting.nextRun`, `Sorting.collect`, `Sorting.collapse`: the runs of a list, and all of them merged.
* `Sorting.sortBy`: a list sorted.
-/

namespace BlockFlow.Sorting

variable {α : Type}

/-- Whether the first value comes before the second. -/
abbrev Comparison (α : Type) := α → α → Except Fault Bool

/-- The end at which a merge starts. Lists are handed to it with that end first. -/
inductive Side where
  | front
  | back
  deriving DecidableEq, Repr

/-- The middle of a stretch of positions. Of two positions in the middle it is the one nearer to the back of the whole. -/
def Side.middle (s : Side) (low high : Nat) : Nat :=
  match s with
  | .front => low + (high - low) / 2
  | .back => low + (high - low - 1) / 2

theorem le_middle (s : Side) (low high : Nat) : low ≤ s.middle low high := by
  cases s <;> simp [Side.middle]

theorem middle_lt (s : Side) {low high : Nat} (h : low < high) : s.middle low high < high := by
  cases s <;> simp only [Side.middle] <;> omega

/-- Tests the element at a position. -/
def testAt (test : α → Except Fault Bool) (xs : List α) (i : Nat) : Except Fault Bool :=
  match xs[i]? with
  | some x => test x
  | none => .ok false

/-- How many elements pass a test, where those below `low` are taken to pass and those from `high` on to fail. -/
def bisect (s : Side) (test : α → Except Fault Bool) (xs : List α) (low high : Nat) : Except Fault Nat :=
  if _h : low < high then do
    if ← testAt test xs (s.middle low high) then bisect s test xs (s.middle low high + 1) high
    else bisect s test xs low (s.middle low high)
  else .ok low
termination_by high - low
decreasing_by
  · have := le_middle s low high
    omega
  · have := middle_lt s _h
    omega

/-- Tests ever more distant elements until one fails, then bisects. The element at `last` has passed. -/
def climb (s : Side) (test : α → Except Fault Bool) (xs : List α) (last next : Nat) : Except Fault Nat :=
  if _h : next < xs.length then do
    if ← testAt test xs next then climb s test xs next (2 * next + 1) else bisect s test xs (last + 1) next
  else bisect s test xs (last + 1) xs.length
termination_by xs.length - next

/-- How many elements at the front of a list pass a test. -/
def gallop (s : Side) (test : α → Except Fault Bool) (xs : List α) : Except Fault Nat :=
  match xs with
  | [] => .ok 0
  | x :: _ => do
    if ← test x then climb s test xs 0 1 else return 0

/-! ### Merging -/

/-- How a merge goes on: comparing, with the number of times in a row that the left and the right run have won, or
galloping. -/
inductive Mode where
  | comparing (lefts rights : Nat)
  | galloping

/-- The number of wins in a row from which on galloping pays. -/
def worthwhile : Nat := 7

/-- Nothing is left to compare: the run that is put in place last has at most one element, or the other none. -/
def isSettled (s : Side) (left right : List α) : Bool :=
  match s with
  | .front => left.length ≤ 1 || right.isEmpty
  | .back => left.isEmpty || right.length ≤ 1

/-- The merged list, from what was put in place, last one first, and what is left. -/
def assemble (s : Side) (placed left right : List α) : List α :=
  match s with
  | .front => placed.reverse ++ right ++ left
  | .back => (left ++ right).reverse ++ placed

/-- An element of the left run is put in place before the given one of the right run. -/
def leftGoes (less : Comparison α) (s : Side) (right left : α) : Except Fault Bool :=
  (less right left).map fun before => before != (s == .front)

/-- An element of the right run is put in place before the given one of the left run. -/
def rightGoes (less : Comparison α) (s : Side) (left right : α) : Except Fault Bool :=
  (less right left).map fun before => before == (s == .front)

/-- Merges two runs. `patience` is the number of wins in a row after which it gallops; it is given back as it is in the
end. -/
def mergeFrom (less : Comparison α) (s : Side) (mode : Mode) (patience : Nat) (placed : List α) :
    List α → List α → Except Fault (List α × Nat)
  | x :: left, y :: right =>
    if isSettled s (x :: left) (y :: right) then .ok (assemble s placed (x :: left) (y :: right), patience)
    else
      match mode with
      | .comparing lefts rights => do
        if ← rightGoes less s x y then
          mergeFrom less s (if patience ≤ rights + 1 then .galloping else .comparing 0 (rights + 1)) patience
            (y :: placed) (x :: left) right
        else
          mergeFrom less s (if patience ≤ lefts + 1 then .galloping else .comparing (lefts + 1) 0) patience
            (x :: placed) left (y :: right)
      | .galloping => do
        let i ← gallop s (leftGoes less s y) (x :: left)
        let placed := ((x :: left).take i).reverse ++ placed
        match _h : (x :: left).drop i with
        | [] => .ok (assemble s placed [] (y :: right), patience)
        | z :: rest =>
          if isSettled s (z :: rest) (y :: right) then .ok (assemble s placed (z :: rest) (y :: right), patience)
          else if isSettled s (z :: rest) right then .ok (assemble s (y :: placed) (z :: rest) right, patience)
          else
            let j ← gallop s (rightGoes less s z) right
            let placed := (right.take j).reverse ++ y :: placed
            if isSettled s (z :: rest) (right.drop j) then
              .ok (assemble s placed (z :: rest) (right.drop j), patience)
            else if isSettled s rest (right.drop j) then .ok (assemble s (z :: placed) rest (right.drop j), patience)
            else if worthwhile ≤ i || worthwhile ≤ j then
              mergeFrom less s .galloping (max 1 (patience - 1)) (z :: placed) rest (right.drop j)
            else mergeFrom less s (.comparing 0 0) (patience + 1) (z :: placed) rest (right.drop j)
  | left, right => .ok (assemble s placed left right, patience)
termination_by left right => left.length + right.length
decreasing_by
  · simp only [List.length_cons]; omega
  · simp only [List.length_cons]; omega
  · have hlen := congrArg List.length _h
    simp only [List.length_drop, List.length_cons] at hlen ⊢
    omega
  · have hlen := congrArg List.length _h
    simp only [List.length_drop, List.length_cons] at hlen ⊢
    omega

/-- Merges two runs where the first element of the right one comes before all of the left one, and the last element of the
left one behind all of the right one. So the first element to be put in place is known. The shorter run is put in place
last. -/
def merge (less : Comparison α) (patience : Nat) (left right : List α) : Except Fault (List α × Nat) :=
  if left.length ≤ right.length then
    mergeFrom less .front (.comparing 0 0) patience (right.take 1) left (right.drop 1)
  else
    mergeFrom less .back (.comparing 0 0) patience (left.reverse.take 1) (left.reverse.drop 1) right.reverse

/-- A run: the position at which it starts, its elements, and the depth of its boundary to the next run. -/
structure Run (α : Type) where
  start : Nat
  items : List α
  depth : Nat := 0

/-- Merges two neighbouring runs. Elements at the outer ends that are in their place already are left out of the merge. -/
def join (less : Comparison α) (patience : Nat) (a b : Run α) : Except Fault (Run α × Nat) := do
  let joined (items : List α) : Run α := ⟨a.start, items, a.depth⟩
  match b.items with
  | [] => return (a, patience)
  | y :: _ =>
    let k ← gallop .front (leftGoes less .front y) a.items
    match (a.items.drop k).getLast? with
    | none => return (joined (a.items ++ b.items), patience)
    | some x =>
      let tail ← gallop .back (rightGoes less .back x) b.items.reverse
      let n := b.items.length - tail
      if n = 0 then return (joined (a.items ++ b.items), patience)
      let (merged, patience) ← merge less patience (a.items.drop k) (b.items.take n)
      return (joined (a.items.take k ++ merged ++ b.items.drop n), patience)

/-! ### Runs -/

/-- How many further values go on with a run: each one compared with the one before it answers `down`. -/
def runLength (less : Comparison α) (down : Bool) (last : α) : List α → Except Fault Nat
  | [] => .ok 0
  | x :: rest => do
    if (← less x last) == down then return (← runLength less down x rest) + 1 else return 0

/-- How many of the values after the first one are in a run with it, and whether the run goes down. -/
def stretch (less : Comparison α) (x : α) : List α → Except Fault (Nat × Bool)
  | [] => .ok (0, false)
  | y :: rest => do
    let down ← less y x
    return ((← runLength less down y rest) + 1, down)

/-- Puts further values into a sorted list, one after the other. -/
def insertAll (less : Comparison α) (sorted : List α) : List α → Except Fault (List α)
  | [] => .ok sorted
  | x :: rest => do
    let i ← bisect .front (leftGoes less .front x) sorted 0 sorted.length
    insertAll less (sorted.take i ++ x :: sorted.drop i) rest

/-- The run at the front of a list, in order and filled up to a least length, and how many elements it takes besides the
first one. -/
def nextRun (less : Comparison α) (least : Nat) (x : α) (rest : List α) : Except Fault (List α × Nat) := do
  let (n, down) ← stretch less x rest
  let lead := x :: rest.take n
  let k := max n (min (least - 1) rest.length)
  return (← insertAll less (if down then lead.reverse else lead) ((rest.take k).drop n), k)

/-- The least length of runs in a list of `n` elements: all of it below 64, else from 32 to 64, such that the number of runs
is a power of two or little less. -/
def leastRun (n : Nat) : Nat :=
  let unit := Nat.pow 2 (n.log2 - 5)
  (n + unit - 1) / unit

/-- The depth of the boundary between two neighbouring runs: the first binary place at which their middles, as parts of the
whole, differ. -/
def boundaryDepth (total start n m : Nat) : Nat :=
  let a := 2 * start + n
  let b := a + n + m
  ((List.range (total.log2 + 2)).find? fun k => a * Nat.pow 2 k / total ≠ b * Nat.pow 2 k / total).getD 0 + 1

/-- Merges the last run with those before it whose boundary is deeper than the one behind it. -/
def settle (less : Comparison α) (depth patience : Nat) (last : Run α) : List (Run α) → Except Fault (List (Run α) × Nat)
  | [] => .ok ([{ last with depth := depth }], patience)
  | r :: below =>
    if depth < r.depth then do
      let (joined, patience) ← join less patience r last
      settle less depth patience joined below
    else .ok ({ last with depth := depth } :: r :: below, patience)

/-- Goes over a list, run by run. The runs are kept last one first. -/
def collect (less : Comparison α) (total patience start : Nat) (runs : List (Run α)) :
    List α → Except Fault (List (Run α) × Nat)
  | [] => .ok (runs, patience)
  | x :: rest => do
    let (items, k) ← nextRun less (leastRun total) x rest
    let (runs, patience) ← match runs with
      | [] => pure ([], patience)
      | last :: below =>
        settle less (boundaryDepth total last.start last.items.length items.length) patience last below
    collect less total patience (start + k + 1) (⟨start, items, 0⟩ :: runs) (rest.drop k)
termination_by xs => xs.length
decreasing_by simp only [List.length_drop, List.length_cons]; omega

/-- Merges all runs, the last ones first unless the one before them is shorter than the last. -/
def collapse (less : Comparison α) (patience : Nat) : List (Run α) → Except Fault (List α)
  | [] => .ok []
  | [r] => .ok r.items
  | [r, q] => do return (← join less patience q r).1.items
  | r :: q :: p :: below => do
    if p.items.length < r.items.length then
      let (joined, patience) ← join less patience p q
      collapse less patience (r :: joined :: below)
    else
      let (joined, patience) ← join less patience q r
      collapse less patience (joined :: p :: below)
termination_by runs => runs.length

/-- Sorts a list. -/
def sortBy (less : Comparison α) (xs : List α) : Except Fault (List α) := do
  let (runs, patience) ← collect less xs.length worthwhile 0 [] xs
  collapse less patience runs

end BlockFlow.Sorting
