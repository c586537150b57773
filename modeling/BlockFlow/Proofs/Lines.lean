import BlockFlow.Proofs.Emission
import BlockFlow.Script.Writer

/-!
Scripts line by line. What a writer does to its lines and its level is read off the nodes alone, so a script is a list of
lines that are known before they are written. A text that is written on one of them can still break it.

* `Script.isLineBreak`, `Script.OneLine`, `Script.linesIn`: where a text is broken into lines.
* `Script.Line`, `Node.linesAll`, `Program.lines`: the lines of a script, each with its level.
* `Writer.write_eq`: **a writer appends the lines of the nodes and is back at its level.**
* `Program.linesIn_render`: the text of a script consists of its lines, each broken where its own text is.
-/

namespace BlockFlow.Script

/-! ## Texts on one line -/

/-- The characters that end a line of code, and with it a comment. -/
def isLineBreak (c : Char) : Bool := ['\n', '\r', Char.ofNat 0x2028, Char.ofNat 0x2029].contains c

/-- A text without line breaks. -/
def OneLine (s : String) : Prop := ∀ c ∈ s.toList, isLineBreak c = false

instance (s : String) : Decidable (OneLine s) := List.decidableBAll (fun c => isLineBreak c = false) s.toList

/-- The lines of a text. -/
def linesIn (cs : List Char) : List (List Char) := cs.splitOnP isLineBreak

theorem oneLine_append {s t : String} : OneLine (s ++ t) ↔ OneLine s ∧ OneLine t := by
  simp [OneLine, or_imp, forall_and]

theorem linesIn_append_break (cs rest : List Char) {c : Char} (h : isLineBreak c = true) :
    linesIn (cs ++ c :: rest) = linesIn cs ++ linesIn rest :=
  List.splitOnP_append_cons cs rest h

/-- A text is its only line if nothing in it breaks a line. -/
theorem linesIn_eq_singleton {s : String} : linesIn s.toList = [s.toList] ↔ OneLine s := by
  constructor
  · intro h c hc
    by_contra hbreak
    -- a break would give two lines at least
    obtain ⟨front, back, hsplit⟩ := List.append_of_mem hc
    rw [hsplit, linesIn_append_break front back (by simpa using hbreak)] at h
    have hfront := List.length_pos_iff.2 (List.splitOnP_ne_nil isLineBreak front)
    have hback := List.length_pos_iff.2 (List.splitOnP_ne_nil isLineBreak back)
    have hlength := congrArg List.length h
    simp only [linesIn, List.length_append, List.length_singleton] at hlength
    omega
  · exact List.splitOnP_eq_singleton

/-! ## The lines of nodes -/

/-- A line of a script: a comment or code behind the margin of a level, or an empty line. -/
inductive Line where
  | comment (level : Int) (text : String)
  | code (level : Int) (text : String)
  | empty
  deriving Repr, DecidableEq

namespace Line

/-- The text of a line. -/
def text (indent : Int) : Line → String
  | .comment level text => (Writer.mk indent level #[]).margin ++ ("// " ++ text)
  | .code level text => (Writer.mk indent level #[]).margin ++ text
  | .empty => ""

def isComment : Line → Bool
  | .comment .. => true
  | _ => false

/-- The text of the line stays on it. -/
def Whole (indent : Int) (l : Line) : Prop := linesIn (l.text indent).toList = [(l.text indent).toList]

instance (indent : Int) (l : Line) : Decidable (l.Whole indent) :=
  inferInstanceAs (Decidable (linesIn (l.text indent).toList = [(l.text indent).toList]))

theorem oneLine_margin (w : Writer) : OneLine w.margin := by
  intro c hc
  simp only [Writer.margin, String.toList_ofList] at hc
  rw [List.eq_of_mem_replicate hc]
  decide

/-- A comment stays on its line if what it says is one line. -/
theorem whole_comment {indent level : Int} {text : String} : (comment level text).Whole indent ↔ OneLine text := by
  have hslashes : OneLine "// " := by decide
  simp only [Whole, linesIn_eq_singleton, Line.text, oneLine_append, oneLine_margin, hslashes, true_and]

end Line

namespace Node

mutual

/-- The lines of a node. -/
def lines (level : Int) : Node → List Line
  | .statement text _ => [.code level text]
  | .comment text _ => [.comment level text]
  | .blank _ => [.empty]
  | .block header body closer _ => .code level header :: linesAll (level + 1) body ++ [.code level closer]

/-- The lines of nodes. -/
def linesAll (level : Int) : List Node → List Line
  | [] => []
  | node :: rest => lines level node ++ linesAll level rest

end

@[simp] theorem linesAll_nil (level : Int) : linesAll level [] = [] := rfl

@[simp] theorem linesAll_cons (level : Int) (node : Node) (rest : List Node) :
    linesAll level (node :: rest) = node.lines level ++ linesAll level rest := rfl

mutual

theorem exists_comment_lines {text : String} (level : Int) : ∀ node : Node,
    (∃ l, .comment l text ∈ node.lines level) ↔ ∃ origin, .comment text origin ∈ node.flat
  | .statement .. => by simp [lines, flat]
  | .comment .. => by simp [lines, flat]
  | .blank .. => by simp [lines, flat]
  | .block _ body _ _ => by simp [lines, flat, exists_comment_linesAll (level + 1) body]

/-- The lines with comments are those of the comments among the nodes. -/
theorem exists_comment_linesAll {text : String} (level : Int) : ∀ nodes : List Node,
    (∃ l, .comment l text ∈ linesAll level nodes) ↔ ∃ origin, .comment text origin ∈ flatAll nodes
  | [] => by simp
  | node :: rest => by
    simp [exists_or, exists_comment_lines level node, exists_comment_linesAll level rest]

end

end Node

/-! ## Writing them -/

namespace Writer

/-- The writer with further lines. -/
def appendLines (w : Writer) (ls : List Line) : Writer :=
  { w with lines := w.lines ++ (ls.map (Line.text w.indent)).toArray }

@[simp] theorem appendLines_nil (w : Writer) : w.appendLines [] = w := by
  simp [appendLines]

theorem appendLines_append (w : Writer) (xs ys : List Line) :
    w.appendLines (xs ++ ys) = (w.appendLines xs).appendLines ys := by
  simp [appendLines]

mutual

theorem writeNode_eq (w : Writer) : ∀ node : Node, w.writeNode node = w.appendLines (node.lines w.level)
  | .statement text _ => by simp [writeNode, line, appendLines, Node.lines, Line.text, margin]
  | .comment text _ => by simp [writeNode, line, appendLines, Node.lines, Line.text, margin]
  | .blank _ => by simp [writeNode, emptyLine, appendLines, Node.lines, Line.text]
  | .block header body closer _ => by
    -- the level that the body is written at is taken back before the closing line
    rw [writeNode, write_eq _ body]
    simp [line, deeper, shallower, appendLines, Node.lines, Line.text, margin]

/-- **Writing nodes appends their lines**, and the writer is back at its level. -/
theorem write_eq (w : Writer) : ∀ nodes : List Node, w.write nodes = w.appendLines (Node.linesAll w.level nodes)
  | [] => by simp [write]
  | node :: rest => by
    rw [write, writeNode_eq w node, write_eq _ rest, Node.linesAll_cons, appendLines_append]
    rfl

end

end Writer

theorem linesOf_eq (indent : Int) (nodes : List Node) :
    linesOf indent nodes = (Node.linesAll 0 nodes).map (Line.text indent) := by
  simp [linesOf, Writer.write_eq, Writer.appendLines]

/-! ## The lines of a script -/

namespace Program

/-- The lines of a script: the comments at the top with an empty line after them, and the body. -/
def lines (p : Program) : List Line :=
  (if p.header.isEmpty then [] else p.header.map (Line.comment 0) ++ [.empty]) ++ Node.linesAll 0 p.body

theorem exists_comment {p : Program} {text : String} : (∃ level, .comment level text ∈ p.lines) ↔
    text ∈ p.header ∨ ∃ origin, .comment text origin ∈ Node.flatAll p.body := by
  rw [← Node.exists_comment_linesAll 0]
  cases h : p.header <;> simp [lines, h, exists_or, eq_comm, or_assoc]

/-- All comments stay on their lines if what they say is one line. -/
theorem forall_comment_whole {p : Program} {indent : Int} :
    (∀ l ∈ p.lines, l.isComment = true → l.Whole indent) ↔
      (∀ text ∈ p.header, OneLine text) ∧ ∀ text origin, .comment text origin ∈ Node.flatAll p.body → OneLine text := by
  constructor
  · intro h
    have hall {text : String} (hline : ∃ level, .comment level text ∈ p.lines) : OneLine text := by
      obtain ⟨level, hmem⟩ := hline
      exact Line.whole_comment.1 (h _ hmem rfl)
    exact ⟨fun text htext => hall (exists_comment.2 (Or.inl htext)),
      fun text origin hnode => hall (exists_comment.2 (Or.inr ⟨origin, hnode⟩))⟩
  · rintro ⟨hheader, hbody⟩ l hl hcomment
    cases l with
    | code => cases hcomment
    | empty => cases hcomment
    | comment level text =>
      rw [Line.whole_comment]
      rcases exists_comment.1 ⟨level, hl⟩ with htext | ⟨origin, hnode⟩
      · exact hheader text htext
      · exact hbody text origin hnode

end Program

/-- Lines that are joined by breaks, and a break at the end, are lines that each end in one. -/
theorem toList_intercalate_break (indent : Int) {ls : List Line} (h : ls ≠ []) :
    ("\n".intercalate (ls.map (Line.text indent)) ++ "\n").toList =
      ls.flatMap fun l => (l.text indent).toList ++ ['\n'] := by
  rw [String.toList_append, String.toList_intercalate, List.map_map]
  induction ls with
  | nil => exact absurd rfl h
  | cons l ls ih =>
    cases ls with
    | nil => simp [List.intercalate]
    | cons k ks =>
      rw [List.flatMap_cons, ← ih (by simp)]
      simp [List.intercalate]

theorem linesAll_comments (texts : List String) :
    Node.linesAll 0 (texts.map fun text => .comment text .null) = texts.map (Line.comment 0) := by
  induction texts with
  | nil => rfl
  | cons text rest ih => simp [Node.lines, ih]

/-- The text of a script is the text of its lines, each ended by a break. -/
theorem Program.toList_render (p : Program) (indent : Int) :
    (p.render indent).toList = p.lines.flatMap fun l => (l.text indent).toList ++ ['\n'] := by
  have hbody : (if (linesOf indent p.body).isEmpty then "" else "\n".intercalate (linesOf indent p.body) ++ "\n").toList =
      (Node.linesAll 0 p.body).flatMap fun l => (l.text indent).toList ++ ['\n'] := by
    rw [linesOf_eq]
    cases h : Node.linesAll 0 p.body with
    | nil => rfl
    | cons l ls => exact toList_intercalate_break indent (List.cons_ne_nil l ls)
  rw [render, String.toList_append, hbody, lines, List.flatMap_append, linesOf_eq, linesAll_comments]
  cases h : p.header with
  | nil => rfl
  | cons text rest =>
    have hheader := toList_intercalate_break indent (List.cons_ne_nil (Line.comment 0 text) (rest.map (Line.comment 0)))
    have hbreaks : "\n\n" = "\n" ++ "\n" := rfl
    simp only [List.map_cons, List.isEmpty_cons, Bool.false_eq_true, if_false, hbreaks, ← String.append_assoc,
      List.flatMap_append] at hheader ⊢
    rw [String.toList_append, hheader]
    rfl

theorem linesIn_flatMap (xs : List (List Char)) :
    linesIn (xs.flatMap (· ++ ['\n'])) = xs.flatMap linesIn ++ [[]] := by
  induction xs with
  | nil => rfl
  | cons x xs ih =>
    rw [List.flatMap_cons, List.flatMap_cons, List.append_assoc, List.singleton_append,
      linesIn_append_break x _ (by decide), ih, List.append_assoc]

/-- **A script consists of its lines**, each broken further where its own text is; the last line ends the text. -/
theorem Program.linesIn_render (p : Program) (indent : Int) :
    linesIn (p.render indent).toList = (p.lines.flatMap fun l => linesIn (l.text indent).toList) ++ [[]] := by
  have h := linesIn_flatMap (p.lines.map fun l => (l.text indent).toList)
  rw [List.flatMap_map, List.flatMap_map] at h
  rw [p.toList_render, h]

end BlockFlow.Script
