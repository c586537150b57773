/-!
The endpoints of the service, and how a method and a path lead to one.

* `Endpoint`: all that can be asked for.
* `Endpoint.ofPath`: the endpoints of a path, by method.
* `Route.find`: the endpoint of a request, or why there is none.
-/

namespace BlockFlow

/-- All that can be asked for. -/
inductive Endpoint where
  | health
  | palette
  | flow
  | rename
  | newFlow
  | clear
  | exportFlow
  | blocks
  | addBlock
  | setParam (id : String)
  | move (id : String)
  | removeBlock (id : String)
  | edges
  | addEdge
  | removeEdge (id : String)
  | code
  | run
  | savedFlows
  | saveFlow
  | savedFlow (id : String)
  | loadFlow (id : String)
  | deleteFlow (id : String)
  | exportSaved (id : String)
  | importFlow
  | asset
  deriving DecidableEq, Repr

/-- Where a request leads. -/
inductive Route where
  | to (e : Endpoint)
  | options
  | moved
  | wrongMethod
  | unknown
  deriving DecidableEq, Repr

namespace Endpoint

/-- The endpoints below the flow being edited, by method. -/
def inFlow : List String → List (String × Endpoint)
  | [] => [("GET", flow), ("PATCH", rename)]
  | ["new"] => [("POST", newFlow)]
  | ["clear"] => [("POST", clear)]
  | ["export"] => [("GET", exportFlow)]
  | ["blocks"] => [("GET", blocks), ("POST", addBlock)]
  | ["blocks", id] => if id.isEmpty then [] else [("DELETE", removeBlock id)]
  | ["blocks", id, "params"] => if id.isEmpty then [] else [("PATCH", setParam id)]
  | ["blocks", id, "move"] => if id.isEmpty then [] else [("POST", move id)]
  | ["edges"] => [("GET", edges), ("POST", addEdge)]
  | ["edges", id] => if id.isEmpty then [] else [("DELETE", removeEdge id)]
  | _ => []

/-- The endpoints below the saved flows, by method. -/
def inSaved : List String → List (String × Endpoint)
  | [] => [("GET", savedFlows), ("POST", saveFlow)]
  | ["import"] => [("POST", importFlow), ("GET", savedFlow "import"), ("DELETE", deleteFlow "import")]
  | [id] => if id.isEmpty then [] else [("GET", savedFlow id), ("DELETE", deleteFlow id)]
  | [id, "load"] => if id.isEmpty then [] else [("POST", loadFlow id)]
  | [id, "export"] => if id.isEmpty then [] else [("GET", exportSaved id)]
  | _ => []

/-- The name of an asset may have slashes, though not in front, and line breaks only there. -/
def isAssetName : List Char → Bool
  | [] => false
  | c :: rest => c ≠ '/' && !rest.contains '\n'

/-- The endpoints of a path, given by its parts, by method. -/
def ofPath : List String → List (String × Endpoint)
  | ["", "api", "health"] => [("GET", health)]
  | ["", "api", "block-types"] => [("GET", palette)]
  | ["", "api", "code"] => [("GET", code)]
  | ["", "api", "run"] => [("POST", run)]
  | "" :: "api" :: "flow" :: rest => inFlow rest
  | "" :: "api" :: "flows" :: rest => inSaved rest
  | "" :: "static" :: rest => if isAssetName ("/".intercalate rest).toList then [("GET", asset)] else []
  | _ => []

end Endpoint

namespace Route

/-- The parts of a path between slashes. -/
def parts (path : List Char) : List String := (path.splitOn '/').map String.ofList

/-- A path with one slash in the place of several. -/
def mergeSlashes : List Char → List Char
  | '/' :: '/' :: rest => mergeSlashes ('/' :: rest)
  | c :: rest => c :: mergeSlashes rest
  | [] => []

/-- The endpoint of a method among those of a path. What can be read can also be asked for without its content. -/
def choose? (method : String) (offers : List (String × Endpoint)) : Option Route :=
  if offers.isEmpty then none
  else if method = "OPTIONS" then some .options
  else
    let wanted := if method = "HEAD" then "GET" else method
    (offers.find? fun o => o.1 = wanted).map fun o => .to o.2

/-- Where a request leads. A path that leads somewhere only once its slashes are merged has moved. -/
def find (method path : String) : Route :=
  let direct := Endpoint.ofPath (parts path.toList)
  let merged := Endpoint.ofPath (parts (mergeSlashes path.toList))
  match choose? method direct, choose? method merged with
  | some r, _ => r
  | none, some _ => .moved
  | none, none => if direct.isEmpty && merged.isEmpty then .unknown else .wrongMethod

end Route

end BlockFlow
