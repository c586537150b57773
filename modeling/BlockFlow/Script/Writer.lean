import BlockFlow.Script.Node

/-!
Scripts as lines of text. A writer holds the indentation and the lines written so far; a body is written one level
deeper than its header, and the level is restored after it.

* `Writer.write`: appends the lines of nodes.
* `Program.render`: a whole script as text.
-/

namespace BlockFlow.Script

/-- The indentation of one level, the level, and the lines written so far. -/
structure Writer where
  indent : Int
  level : Int := 0
  lines : Array String := #[]

namespace Writer

/-- The blanks in front of a line. A product that is negative gives none. -/
def margin (w : Writer) : String := String.ofList (List.replicate (w.level * w.indent).toNat ' ')

/-- Appends a line behind the margin. -/
def line (w : Writer) (text : String) : Writer := { w with lines := w.lines.push (w.margin ++ text) }

/-- Appends an empty line. -/
def emptyLine (w : Writer) : Writer := { w with lines := w.lines.push "" }

def deeper (w : Writer) : Writer := { w with level := w.level + 1 }

def shallower (w : Writer) : Writer := { w with level := w.level - 1 }

mutual

/-- Appends the lines of a node. -/
def writeNode (w : Writer) : Node → Writer
  | .statement text _ => w.line text
  | .comment text _ => w.line ("// " ++ text)
  | .blank _ => w.emptyLine
  | .block header body closer _ => ((write (w.line header).deeper body).shallower).line closer

/-- Appends the lines of nodes. -/
def write (w : Writer) : List Node → Writer
  | [] => w
  | node :: rest => write (writeNode w node) rest

end

end Writer

/-- The lines of nodes from the left margin on. -/
def linesOf (indent : Int) (nodes : List Node) : List String := ((Writer.mk indent 0 #[]).write nodes).lines.toList

/-- A script as text: the comments at the top, an empty line, and the lines of the body. -/
def Program.render (p : Program) (indent : Int) : String :=
  let header := linesOf indent (p.header.map fun text => .comment text .null)
  let body := linesOf indent p.body
  (if header.isEmpty then "" else "\n".intercalate header ++ "\n\n") ++
    (if body.isEmpty then "" else "\n".intercalate body ++ "\n")

end BlockFlow.Script
