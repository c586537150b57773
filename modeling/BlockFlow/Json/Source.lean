import BlockFlow.Json.Reader

/-!
JSON documents as they come in: as text or as bytes.

* `Json.parse`: the value that a document writes, with `lone` for surrogates that stand alone.
-/

namespace BlockFlow.Json

/-- The value that a document writes, given as text or as bytes. -/
def parse (source : Value) (lone : Char := Encoding.replacement) : Except Fault Value :=
  match source with
  | .text s => read s lone
  | .bytes bs =>
    match Encoding.decode lone bs with
    | .ok cs => readChars lone cs
    | .error m => .error (.badEncoding m)
  | _ => .error (.notDocument source.kind)

end BlockFlow.Json
