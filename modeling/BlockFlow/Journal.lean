import BlockFlow.Fault

/-!
The journal: short notes on what the parts of the program do.

* `Level`: how much a note matters.
* `Speaker`: which part of the program leaves it.
* `Note`: the note itself.
-/

namespace BlockFlow

/-- How much a note matters. -/
inductive Level where
  | debug
  | info
  | warning
  | error
  deriving DecidableEq, Repr

/-- The part of the program that leaves a note. -/
inductive Speaker where
  | canvas
  | script
  | archive
  | session
  | runner
  | service
  deriving DecidableEq, Repr

/-- A note. -/
structure Note where
  speaker : Speaker
  level : Level
  text : String
  deriving DecidableEq, Repr

end BlockFlow
