import BlockFlow.Number.Read
import BlockFlow.Service.Basic

/-!
Starting the service: how much is written to the log, where it listens, and what is said about it.

* `LogLevel`, `LogLevel.ofName`: levels of the log by name.
* `Startup`: all that is decided at the start.
* `Startup.begin`: decides it from the environment and the settings.
-/

namespace BlockFlow

/-- Levels of the log. -/
inductive LogLevel where
  | all
  | debug
  | info
  | warning
  | error
  | critical
  deriving DecidableEq, Repr

namespace LogLevel

def name : LogLevel → String
  | all => "NOTSET"
  | debug => "DEBUG"
  | info => "INFO"
  | warning => "WARNING"
  | error => "ERROR"
  | critical => "CRITICAL"

/-- The level of a name. -/
def ofName : String → Except Fault LogLevel
  | "NOTSET" => .ok all
  | "DEBUG" => .ok debug
  | "INFO" => .ok info
  | "WARN" | "WARNING" => .ok warning
  | "ERROR" => .ok error
  | "CRITICAL" | "FATAL" => .ok critical
  | s => .error (.unknownLevel s)

end LogLevel

/-- All that is decided at the start. -/
structure Startup where
  level : LogLevel
  secret : Value
  host : String
  port : Int

namespace Startup

/-- The form of a line of the log. -/
def logFormat : String := "%(asctime)s %(levelname)s %(name)s: %(message)s"

/-- The most digits that a number may be written with. -/
def maxDigits : Nat := 4300

/-- A port by its number. Too many digits are refused before what follows them is looked at. -/
def readPort (s : String) : Except Fault Int :=
  match Number.splitInt s.toList with
  | none => .error (.unreadableInt s)
  | some (negative, digits, rest) =>
    if maxDigits < digits.length then .error (.tooManyDigits digits.length)
    else if rest.isEmpty then .ok (Number.signedValue negative digits)
    else .error (.unreadableInt s)

/-- What is said at the start. -/
def banner (s : Startup) : String :=
  "Starting Block Coding Web Interface...\nAccess the API at: http://localhost:" ++ intText s.port ++ "/api/health\n"

/-- Starts the session on a new flow and decides all else: first the level, then the session, then where it listens. -/
def begin : Work Startup := do
  let env := (← get).environment
  let level ← Act.ofExcept (LogLevel.ofName (env.valueD "BLOCKFLOW_LOG_LEVEL" "INFO"))
  let _ ← Archive.store
  Session.start none
  let secret ← Service.start
  let host := env.valueD "BLOCKFLOW_HOST" "0.0.0.0"
  let port ← Act.ofExcept (readPort (env.valueD "BLOCKFLOW_PORT" "5003"))
  return ⟨level, secret, host, port⟩

end Startup

end BlockFlow
