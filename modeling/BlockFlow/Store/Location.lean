import BlockFlow.Store.Basic

/-!
Where the store is kept on disk.

* `Location.database`: the path of the database, from an argument, the environment, or the working directory.
* `Location.absolute`, `Location.directory`: a path made absolute and free of detours, and the directory it lies in.
-/

namespace BlockFlow.Location

/-- The path of the database. -/
def database (env : Environment) (workingDirectory : String) (argument : Option String) : String :=
  match argument.filter fun a => !a.isEmpty with
  | some path => path
  | none =>
    let path := env.stripped "BLOCKFLOW_DB_PATH"
    if path.isEmpty then workingDirectory ++ "/data/flows.db" else path

/-- The parts of a path between slashes. -/
def segments : List Char → List (List Char)
  | [] => [[]]
  | c :: rest =>
    match segments rest with
    | [] => [[c]]
    | first :: more => if c = '/' then [] :: first :: more else (c :: first) :: more

/-- Goes down a path, one part after the other; `done` is in reverse. -/
def resolve (done : List (List Char)) : List (List Char) → List (List Char)
  | [] => done.reverse
  | part :: rest =>
    if part = [] ∨ part = ['.'] then resolve done rest
    else if part = ['.', '.'] then resolve (done.drop 1) rest
    else resolve (part :: done) rest

/-- The slashes that an absolute path starts with: exactly two are kept, all other numbers are one. -/
def root (cs : List Char) : List Char :=
  if (cs.takeWhile (· = '/')).length = 2 then ['/', '/'] else ['/']

/-- A path as an absolute path without empty parts, `.` and `..`. -/
def absolute (workingDirectory path : String) : String :=
  let cs := if path.startsWith "/" then path.toList else (workingDirectory ++ "/" ++ path).toList
  String.ofList (root cs ++ (['/'].intercalate (resolve [] (segments cs))))

/-- All of a path before its last slash, without the slashes there; a path of slashes only stays. -/
def directory (path : String) : String :=
  let head := path.toList.reverse.dropWhile (· ≠ '/')
  if head.all (· = '/') then String.ofList head else String.ofList (head.dropWhile (· = '/')).reverse

/-- The directory that the database lies in. -/
def databaseDirectory (workingDirectory path : String) : String := directory (absolute workingDirectory path)

end BlockFlow.Location
