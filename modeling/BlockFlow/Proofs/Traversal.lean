import BlockFlow.Proofs.Lines
import BlockFlow.Proofs.Nesting

/-!
Scripts as walks. The walk through a script lists its nodes with their depths and knows nothing of closing lines. The nodes
below a header are those that follow it and are deeper, so the walk alone tells where its closing line belongs.

* `Spot`, `Passage`: a node at its depth, and a line of a walk, which is written on the way into a spot or out of it.
* `Passage.along`: the lines along spots. A spot is left after all that follows it and is deeper.
* `Passage.along_walkAll`: along a walk, what follows a node and is deeper is the walk through its body.
* `Writer.write_walk`: **a writer writes the lines along the walk from its own level, and is back at that level.**
-/

namespace BlockFlow.Script

/-- A node at its depth. -/
abbrev Spot := Node × Int

/-- A line on the way into a spot, or the closing line at a depth on the way out of it. -/
inductive Passage where
  | enters (p : Spot)
  | leaves (closer : String) (depth : Int)

namespace Passage

/-- The blanks in front of a line at a depth; none if there would be less than none. -/
def blanks (indent depth : Int) : String := String.ofList (List.replicate (indent * depth).toNat ' ')

/-- The text of a line. -/
def text (indent : Int) : Passage → String
  | .enters (.statement text _, depth) => blanks indent depth ++ text
  | .enters (.comment text _, depth) => blanks indent depth ++ ("// " ++ text)
  | .enters (.blank _, _) => ""
  | .enters (.block header _ _ _, depth) => blanks indent depth ++ header
  | .leaves closer depth => blanks indent depth ++ closer

/-- The spot that the line is on the way into. -/
def entered? : Passage → Option Spot
  | .enters p => some p
  | .leaves _ _ => none

/-- The way out of a spot. Only what has a body is closed. -/
def out : Spot → List Passage
  | (.block _ _ closer _, depth) => [.leaves closer depth]
  | _ => []

/-- The lines along spots. A spot is left after those that follow it and are deeper. -/
def along : List Spot → List Passage
  | [] => []
  | p :: rest => .enters p :: along (rest.takeWhile (p.2 < ·.2)) ++ out p ++ along (rest.dropWhile (p.2 < ·.2))
termination_by spots => spots.length
decreasing_by
  · exact Nat.lt_succ_of_le (List.takeWhile_sublist _).length_le
  · exact Nat.lt_succ_of_le (List.dropWhile_sublist _).length_le

theorem entered?_out (p : Spot) : (out p).filterMap entered? = [] := by
  obtain ⟨node, depth⟩ := p
  cases node <;> rfl

/-- **Every spot is entered once**, in the order of the spots. -/
theorem entered?_along (spots : List Spot) : (along spots).filterMap entered? = spots := by
  fun_induction along spots with
  | case1 => rfl
  | case2 p rest ihDeeper ihOthers =>
    simp only [List.filterMap_append, List.filterMap_cons, entered?, entered?_out, ihDeeper, ihOthers, List.append_nil,
      List.cons_append, List.takeWhile_append_dropWhile]

/-- Where the deeper spots end, the spot is left. -/
theorem along_cons {p : Spot} {inner rest : List Spot} (hinner : ∀ q ∈ inner, p.2 < q.2)
    (hrest : ∀ q ∈ rest.head?, q.2 ≤ p.2) :
    along (p :: (inner ++ rest)) = .enters p :: along inner ++ out p ++ along rest := by
  have hdeeper : ∀ q ∈ inner, decide (p.2 < q.2) = true := fun q hq => decide_eq_true (hinner q hq)
  have hstop : rest.takeWhile (fun q => decide (p.2 < q.2)) = [] ∧ rest.dropWhile (fun q => decide (p.2 < q.2)) = rest := by
    cases rest with
    | nil => exact ⟨rfl, rfl⟩
    | cons q rest =>
      have hq : ¬ decide (p.2 < q.2) = true := by simpa using hrest q rfl
      exact ⟨List.takeWhile_cons_of_neg hq, List.dropWhile_cons_of_neg hq⟩
  rw [along, List.takeWhile_append_of_pos hdeeper, List.dropWhile_append_of_pos hdeeper, hstop.1, hstop.2, List.append_nil]

end Passage

/-! ## The lines along a walk -/

namespace Node

theorem walk_eq (depth : Int) (node : Node) : node.walk depth = (node, depth) :: walkAll (depth + 1) node.inner := by
  cases node <;> rfl

mutual

theorem le_of_mem_walk (depth : Int) : ∀ node : Node, ∀ p ∈ node.walk depth, depth ≤ p.2
  | .statement .. => by simp [walk]
  | .comment .. => by simp [walk]
  | .blank .. => by simp [walk]
  | .block _ body _ _ => by
    intro p hp
    rcases List.mem_cons.1 hp with rfl | hp
    · exact Int.le_refl depth
    · exact Int.le_of_lt (le_of_mem_walkAll (depth + 1) body p hp)

/-- A walk does not come above the depth that it starts at. -/
theorem le_of_mem_walkAll (depth : Int) : ∀ nodes : List Node, ∀ p ∈ walkAll depth nodes, depth ≤ p.2
  | [] => by simp [walkAll]
  | node :: rest => by
    intro p hp
    rcases List.mem_append.1 hp with hp | hp
    · exact le_of_mem_walk depth node p hp
    · exact le_of_mem_walkAll depth rest p hp

end

/-- A walk starts at its depth. -/
theorem head?_walkAll (depth : Int) (nodes : List Node) : ∀ p ∈ (walkAll depth nodes).head?, p.2 = depth := by
  cases nodes with
  | nil => simp [walkAll]
  | cons node rest => simp [walkAll, walk_eq]

end Node

/-- **Between the way into a node and the way out of it are the lines of its body.** What follows the node and is deeper is
the walk through the body, since the walk through the next node starts as high as this one. -/
theorem Passage.along_walkAll (depth : Int) (node : Node) (rest : List Node) :
    along (Node.walkAll depth (node :: rest)) =
      .enters (node, depth) :: along (Node.walkAll (depth + 1) node.inner) ++ out (node, depth) ++
        along (Node.walkAll depth rest) := by
  rw [Node.walkAll, Node.walk_eq, List.cons_append]
  exact along_cons (fun q hq => Node.le_of_mem_walkAll (depth + 1) node.inner q hq) fun q hq =>
    Int.le_of_eq (Node.head?_walkAll depth rest q hq)

theorem Writer.margin_eq (indent level : Int) : (Writer.mk indent level #[]).margin = Passage.blanks indent level := by
  rw [Writer.margin, Passage.blanks, Int.mul_comm]

namespace Node

mutual

/-- The lines of a node are those along its body, between the way into the node and the way out. -/
theorem map_lines (indent level : Int) : ∀ node : Node, (node.lines level).map (Line.text indent) =
    (.enters (node, level) :: Passage.along (walkAll (level + 1) node.inner) ++ Passage.out (node, level)).map
      (Passage.text indent)
  | .statement .. => by simp [lines, inner, walkAll, Passage.along, Passage.out, Passage.text, Line.text, Writer.margin_eq]
  | .comment .. => by simp [lines, inner, walkAll, Passage.along, Passage.out, Passage.text, Line.text, Writer.margin_eq]
  | .blank .. => by simp [lines, inner, walkAll, Passage.along, Passage.out, Passage.text, Line.text]
  | .block _ body _ _ => by
    simp [lines, inner, Passage.out, Passage.text, Line.text, Writer.margin_eq, map_linesAll indent (level + 1) body]

/-- **The lines of nodes are the lines along the walk through them.** -/
theorem map_linesAll (indent level : Int) : ∀ nodes : List Node,
    (linesAll level nodes).map (Line.text indent) = (Passage.along (walkAll level nodes)).map (Passage.text indent)
  | [] => by simp [walkAll, Passage.along]
  | node :: rest => by
    rw [linesAll_cons, List.map_append, map_lines indent level node, map_linesAll indent level rest, ← List.map_append,
      Passage.along_walkAll]

end

theorem linesAll_append (level : Int) (xs ys : List Node) :
    linesAll level (xs ++ ys) = linesAll level xs ++ linesAll level ys := by
  induction xs with
  | nil => rfl
  | cons x xs ih => simp [ih]

end Node

/-- **What a writer does.** It is back at its level afterwards, so nodes may be written in parts. It has written one line for
each node of the walk from its level, in order, behind the blanks of the depth, and for each node with a body a closing line
after all that is deeper, behind the blanks of the header. -/
theorem Writer.write_walk (w : Writer) (xs ys : List Node) :
    (w.write xs).indent = w.indent ∧ (w.write xs).level = w.level ∧ (w.write xs).write ys = w.write (xs ++ ys) ∧
      (w.write xs).lines.toList =
        w.lines.toList ++ (Passage.along (Node.walkAll w.level xs)).map (Passage.text w.indent) ∧
      (Passage.along (Node.walkAll w.level xs)).filterMap Passage.entered? = Node.walkAll w.level xs := by
  have hxs := w.write_eq xs
  refine ⟨by rw [hxs]; rfl, by rw [hxs]; rfl, ?_, ?_, Passage.entered?_along _⟩
  · rw [write_eq, hxs, write_eq, Node.linesAll_append, appendLines_append]
    rfl
  · rw [hxs, ← Node.map_linesAll]
    simp [appendLines]

end BlockFlow.Script
