import BlockFlow.Json.Source
import BlockFlow.Text.Blank
import BlockFlow.Text.Lowercase

/-!
Requests: a method, a path, and a body with the sort of its content.

* `Request.verb`: the method, however it is written.
* `Request.path`: the path with all escapes read, without what follows it in the address.
* `Request.data`: the JSON value in the body; whatever cannot be read as one counts as an empty dictionary.
-/

namespace BlockFlow

/-- A request. -/
structure Request where
  method : String
  address : String
  body : Option String := none
  contentType : Option String := none

namespace Request

def hexValue? (c : Char) : Option Nat :=
  if '0' ≤ c && c ≤ '9' then some (c.toNat - 0x30)
  else if 'a' ≤ c && c ≤ 'f' then some (c.toNat - 0x57)
  else if 'A' ≤ c && c ≤ 'F' then some (c.toNat - 0x37)
  else none

def utf8Bytes (cs : List Char) : List UInt8 := (String.ofList cs).toUTF8.toList

/-- The bytes of an address: a percent sign with two hexadecimal digits is one byte. -/
def unescape : List Char → List UInt8
  | '%' :: a :: b :: rest =>
    match hexValue? a, hexValue? b with
    | some x, some y => UInt8.ofNat (16 * x + y) :: unescape rest
    | _, _ => 0x25 :: unescape (a :: b :: rest)
  | c :: rest => utf8Bytes [c] ++ unescape rest
  | [] => []

/-- An address without blanks and controls in front, and without tabulators and line breaks. -/
def tidy (cs : List Char) : List Char :=
  (cs.dropWhile fun c => c.toNat ≤ 0x20).filter fun c => c ≠ '\t' ∧ c ≠ '\n' ∧ c ≠ '\r'

def isSchemeChar (c : Char) : Bool := c.isAlphanum || c = '+' || c = '-' || c = '.'

/-- Leaves out a scheme: a name that starts with a letter, up to a colon. -/
def dropScheme (cs : List Char) : List Char :=
  let name := cs.takeWhile (· ≠ ':')
  if name.head?.any Char.isAlpha && name.all isSchemeChar && name.length < cs.length then cs.drop (name.length + 1)
  else cs

/-- Leaves out a host, which stands behind two slashes. -/
def dropHost : List Char → List Char
  | '/' :: '/' :: rest => rest.dropWhile fun c => c ≠ '/' ∧ c ≠ '?' ∧ c ≠ '#'
  | cs => cs

/-- The path of an address: scheme and host stand in front of it, query and fragment behind. -/
def pathPart (cs : List Char) : List Char :=
  (dropHost (dropScheme (tidy cs))).takeWhile fun c => c ≠ '#' ∧ c ≠ '?'

/-- The part of an address that is the path. It is an address itself, so it is looked at twice. -/
def rawPath (address : String) : List Char := pathPart (pathPart address.toList)

/-- The method in capital letters. -/
def verb (r : Request) : String := r.method.map Char.toUpper

/-- The path, with one slash in front. -/
def path (r : Request) : String :=
  String.ofList ('/' :: (Encoding.lossy (unescape (rawPath r.address))).dropWhile (· = '/'))

/-- The content is said to be JSON; parameters of the content type do not matter. -/
def saysJson (contentType : String) : Bool :=
  let name := Text.lower (Text.strip (String.ofList (contentType.toList.takeWhile (· ≠ ';'))))
  name == "application/json" || (name.startsWith "application/" && name.endsWith "+json")

/-- The JSON value in the body, with `lone` for surrogates that stand alone. -/
def json? (r : Request) (lone : Char := Encoding.replacement) : Option Value :=
  if saysJson (r.contentType.getD "") then
    (Json.parse (.bytes (utf8Bytes (r.body.getD "").toList)) lone).toOption
  else none

/-- The JSON value in the body, where all that does not count as given is an empty dictionary. -/
def data (r : Request) : Value := (r.json?.getD .null).orElse (.dict [])

end Request

end BlockFlow
