import BlockFlow.Value.Access

/-!
What running a script is about: how a run turns out, where scripts are run, and the report of a run.

* `SystemError`: an error of the operating system, given by its arguments, and its text.
* `Outcome`: how a run turns out.
* `Launch`, `Machine`: the runs that were started, and the place where they are started.
* `Runner`: a time limit and a command.
* `Report`: what is told about a run.
-/

namespace BlockFlow

/-- An error of the operating system: a number, a text and file names, or less than that. -/
abbrev SystemError := List Value

namespace SystemError

/-- The system would have to wait. After the text of such an error a count of characters may stand for the file name. -/
def wouldWait : Value → Bool
  | .int n => n = 11 || n = 114 || n = 115
  | _ => false

/-- A count stands in front. -/
def hasCount : List Value → Bool
  | .int _ :: _ | .bool _ :: _ | .real _ :: _ => true
  | _ => false

/-- An error with a count of characters has an integer of 64 bits for it. -/
def check (e : SystemError) : Except Fault Unit :=
  match e with
  | number :: _ :: count :: names =>
    if wouldWait number && names.length ≤ 2 then
      match count with
      | .int n => if Value.isWord n then .ok () else .error .countTooLarge
      | .real _ => .error (.notInteger .real)
      | _ => .ok ()
    else .ok ()
  | _ => .ok ()

/-- The file names of an error. -/
def files : List Value → String
  | [] | .null :: _ => ""
  | [a] | [a, _] | [a, _, .null] => ": " ++ a.inspect
  | a :: _ :: b :: _ => ": " ++ a.inspect ++ " -> " ++ b.inspect

/-- The text of an error. -/
def text (e : SystemError) : String :=
  match e with
  | [] => ""
  | [v] => v.display
  | number :: reason :: names =>
    if names.length ≤ 3 then
      "[Errno " ++ number.display ++ "] " ++ reason.display ++
        (if wouldWait number && hasCount names then "" else files names)
    else (Value.tuple e).inspect

end SystemError

/-- How the command itself behaves once its file is there. -/
inductive Conduct where
  | finishes (code : Int) (stdout stderr : Value)
  | expires
  | refuses (e : SystemError)

/-- How a run turns out: the file cannot be made, or the command runs for some quarters of a second, and the file may be
gone afterwards. -/
inductive Outcome where
  | noFile (e : SystemError)
  | started (conduct : Conduct) (quarters : Int) (fileGone : Bool)

/-- A run that was started: the command, the script and the time limit. -/
structure Launch where
  command : Value
  source : String
  limit : Value

/-- Where scripts are run: the command that is found there, the outcomes to come, the runs so far, the clock in seconds, and
the files that were left behind. -/
structure Machine where
  found : Option String := none
  outcomes : List Outcome := []
  launches : Array Launch := #[]
  clock : Binary64 := Binary64.ofRatio false 1000 1
  keepsFiles : Bool := false
  filesLeft : Nat := 0

/-- What runs scripts: a time limit and, if there is one, a command. -/
structure Runner where
  limit : Value
  command : Option Value

/-- What is told about a run. -/
structure Report where
  success : Value
  output : Value := .text ""
  error : Value := .null
  seconds : Value := .real (Binary64.zero false)

namespace Report

/-- What a user is told about a run. -/
def message (r : Report) : Value :=
  if r.success.truthy then .text "The code was executed successfully."
  else r.error.orElse (.text "Failed to execute code")

def document (r : Report) : Value :=
  .object [("success", r.success), ("output", r.output), ("error", r.error), ("message", r.message),
    ("execution_time", r.seconds)]

/-- A report in one line. -/
def line (r : Report) : String :=
  if r.success.truthy then "Success: " ++ r.output.display else "Error: " ++ r.error.display

end Report

end BlockFlow
