import BlockFlow.Startup

/-!
The service on standard input and output. Each line holds a method, an address and, if there is one, a JSON body, divided
by blanks; each answer is a line with the status and the body. Time is counted from the start of the program.
-/

namespace BlockFlow.Main

/-- The variables of the environment that matter. -/
def variableNames : List String :=
  ["BLOCKFLOW_LOG_LEVEL", "BLOCKFLOW_HOST", "BLOCKFLOW_PORT", "BLOCKFLOW_SECRET_KEY", "BLOCKFLOW_EXEC_TIMEOUT",
    "BLOCKFLOW_NODE_BINARY"]

/-- The request that a line writes. -/
def requestOf (line : String) : Request :=
  let word (cs : List Char) : String := String.ofList (cs.takeWhile (· ≠ ' '))
  let after (cs : List Char) : List Char := (cs.dropWhile (· ≠ ' ')).drop 1
  let cs := (Text.strip line).toList
  let body := String.ofList (after (after cs))
  if body.isEmpty then { method := word cs, address := word (after cs) }
  else
    { method := word cs, address := word (after cs), body := some body, contentType := some "application/json" }

/-- An answer as a line. -/
def replyLine (r : Reply) : String :=
  let status := intText r.status
  match r.body with
  | .page | .empty => status
  | .text s => status ++ " " ++ s
  | .json v =>
    match Json.compact v with
    | .ok text => status ++ " " ++ text
    | .error fault => status ++ " " ++ fault.message

/-- The answer to a line at a time, and the workspace after it. -/
def answer (line : String) (now : Nat) (w : Workspace) : String × Workspace :=
  match Service.respond (requestOf line) { w with now := now } with
  | (.ok reply, w') => (replyLine reply, w')
  | (.error fault, w') => (fault.message, w')

/-- Answers lines until there are no more. -/
partial def loop (input output : IO.FS.Stream) (start : Nat) (w : Workspace) : IO Unit := do
  let line ← input.getLine
  if line.isEmpty then return
  let now ← IO.monoNanosNow
  let (text, w') := answer line ((now - start) / 1000) w
  output.putStrLn text
  output.flush
  loop input output start w'

/-- The environment of the program. -/
def environment : IO Environment := do
  let found ← variableNames.mapM fun name => return (name, ← IO.getEnv name)
  return found.filterMap fun (name, value) => value.map fun v => (name, v)

end BlockFlow.Main

open BlockFlow in
/-- Starts the service and answers what comes in. -/
def main : IO UInt32 := do
  let start ← IO.monoNanosNow
  let w : Workspace := { flow := { id := .null }, environment := ← Main.environment }
  match Startup.begin w with
  | (.error fault, _) =>
    (← IO.getStderr).putStrLn fault.message
    return 1
  | (.ok s, w') =>
    (← IO.getStdout).putStr s.banner
    Main.loop (← IO.getStdin) (← IO.getStdout) start w'
    return 0
