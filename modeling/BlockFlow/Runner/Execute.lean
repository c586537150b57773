import BlockFlow.Text.Blank
import BlockFlow.Workspace

/-!
Running scripts. Whatever goes wrong, a report comes out.

* `Runner.readLimit`: a time limit from a setting. What is not a positive number is passed over for thirty seconds.
* `Runner.make`: a runner from arguments and settings.
* `Runner.execute`: the run of a script.
-/

namespace BlockFlow.Runner

/-- The time limit that is taken where none is given: thirty seconds. -/
def defaultLimit : Binary64 := Binary64.ofRatio false 30 1

/-- The number is zero or below. -/
def isNonPositive (x : Binary64) : Bool :=
  match x with
  | .nan _ => false
  | .infinite neg => neg
  | .finite neg m _ _ => neg || m == 0

/-- The note about a time limit that is passed over. -/
def limitNote (sort : String) (raw : Value) : String :=
  "Ignoring " ++ sort ++ " exec_timeout " ++ raw.inspect ++ "; using " ++ Layout.brief.write defaultLimit ++ "s"

/-- A time limit from a setting. -/
def readLimit (raw : Value) : Work Binary64 := do
  match raw.toReal with
  | .ok x =>
    if isNonPositive x then
      Work.note .runner .warning (limitNote "non-positive" raw)
      return defaultLimit
    else return x
  | .error fault =>
    if fault.family = .type ∨ fault.family = .value then
      Work.note .runner .warning (limitNote "invalid" raw)
      return defaultLimit
    else Act.fail fault

/-- A setting as a runner sees it. -/
def setting (store : Option Store) (key variableName default : String) : Work Value := do
  Act.ofExcept (resolveSetting (← get).environment store (.text key) variableName (.text default))

/-- The time limit of the settings. -/
def settingLimit (store : Option Store) : Work Value := do
  let raw ← setting store "exec_timeout" "BLOCKFLOW_EXEC_TIMEOUT" (Layout.plain.write defaultLimit)
  return .real (← readLimit raw)

/-- A runner. What is not given is taken from the settings; the command may also be the one that the machine finds. -/
def make (store : Option Store) (limit command : Value) : Work Runner := do
  let limit ← match limit with
    | .null => settingLimit store
    | _ => pure limit
  let found := ((← get).machine.found).getD ""
  let command ← if command.truthy then pure command
    else setting store "node_binary" "BLOCKFLOW_NODE_BINARY" found
  return ⟨limit, if command.truthy then some command else none⟩

/-- A time limit in a message: with six significant digits. -/
def limitText (limit : Value) : Except Fault String :=
  match limit with
  | .text _ => .error (.unknownFormat limit.kind)
  | .null | .bytes _ | .list _ | .tuple _ | .dict _ => .error (.unsupportedFormat limit.kind)
  | _ => limit.toReal.map Layout.brief.write

/-- What a command wrote, where nothing is an empty text. -/
def written (v : Value) : Value := v.orElse (.text "")

/-- The text that a failed command gives for its failure: what it wrote about it, or its exit code. -/
def failureText (code : Int) (stderr : Value) : String :=
  let text := match stderr with
    | .text s => Text.strip s
    | _ => ""
  if text.isEmpty then "Node.js exited with code " ++ intText code else text

/-- The report on a command that was started. -/
def conclude (r : Runner) (conduct : Conduct) (seconds : Binary64) : Work Report := do
  match conduct with
  | .finishes code stdout stderr =>
    if code = 0 then return ⟨.bool true, written stdout, .null, .real seconds⟩
    else
      Work.note .runner .warning ("Generated code exited with code " ++ intText code)
      return ⟨.bool false, written stdout, .text (failureText code stderr), .real seconds⟩
  | .expires =>
    Work.note .runner .warning ("Generated code timed out after " ++ r.limit.display ++ "s")
    let text ← Act.ofExcept (limitText r.limit)
    return ⟨.bool false, .text "", .text ("JavaScript execution timed out after " ++ text ++ "s"), .real seconds⟩
  | .refuses e =>
    Act.ofExcept e.check
    Work.note .runner .warning ("Could not run Node.js: " ++ e.text)
    return ⟨.bool false, .text "", .text e.text, .real seconds⟩

/-- The next outcome. Where none is planned, a command ends at once without a word. -/
def nextOutcome : Work Outcome := do
  let w ← get
  match w.machine.outcomes with
  | [] => return .started (.finishes 0 (.text "") (.text "")) 0 false
  | o :: rest =>
    set { w with machine := { w.machine with outcomes := rest } }
    return o

/-- Remembers a run: it took its time, and its file is left behind if it is still there and cannot be removed. -/
def recordLaunch (m : Machine) (l : Launch) (quarters : Int) (fileGone : Bool) : Machine :=
  { m with
    launches := m.launches.push l
    clock := m.clock.add (Binary64.ofQuarters quarters)
    filesLeft := if m.keepsFiles && !fileGone then m.filesLeft + 1 else m.filesLeft }

/-- Runs a script. -/
def execute (r : Runner) (code : String) : Work Report := do
  match r.command with
  | none =>
    Work.note .runner .warning "Node.js runtime not found; cannot execute generated code"
    return {
      success := .bool false
      error := .text "Node.js runtime not found on PATH. Install Node.js to execute JavaScript" }
  | some command =>
    match ← nextOutcome with
    | .noFile e => r.conclude (.refuses e) (Binary64.zero false)
    | .started conduct quarters fileGone =>
      let before := (← get).machine.clock
      modify fun w => { w with machine := recordLaunch w.machine ⟨command, code, r.limit⟩ quarters fileGone }
      r.conclude conduct ((← get).machine.clock.sub before)

end BlockFlow.Runner
