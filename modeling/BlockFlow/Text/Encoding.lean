/-!
Bytes read as text. Texts in two-byte and four-byte units are recognised by their mark or by the zero bytes among the
first four; all others are taken as UTF-8.

* `Encoding.detect`: how a byte string is encoded.
* `Encoding.decode`: its characters, or a message that tells which bytes cannot be read. A surrogate that stands alone is no
  character; `lone` is the one to put in its place.
* `Encoding.lossy`: its characters as UTF-8, with a mark where bytes cannot be read.
-/

namespace BlockFlow.Encoding

/-- The ways in which text can be encoded, with a mark at the front or without. -/
inductive Scheme where
  | utf8
  | utf8Marked
  | utf16 (bigEndian : Bool) (mark : Nat)
  | utf32 (bigEndian : Bool) (mark : Nat)
  deriving DecidableEq, Repr

/-- How a byte string is encoded. -/
def detect (bs : List UInt8) : Scheme :=
  match bs with
  | 0xff :: 0xfe :: 0 :: 0 :: _ => .utf32 false 4
  | 0 :: 0 :: 0xfe :: 0xff :: _ => .utf32 true 4
  | 0xff :: 0xfe :: _ => .utf16 false 2
  | 0xfe :: 0xff :: _ => .utf16 true 2
  | 0xef :: 0xbb :: 0xbf :: _ => .utf8Marked
  | a :: b :: c :: d :: _ =>
    if a = 0 then if b = 0 then .utf32 true 0 else .utf16 true 0
    else if b = 0 then if c = 0 && d = 0 then .utf32 false 0 else .utf16 false 0
    else .utf8
  | [a, b] => if a = 0 then .utf16 true 0 else if b = 0 then .utf16 false 0 else .utf8
  | _ => .utf8

/-- Bytes that cannot be read: the first of them, how many there are, and why. -/
structure Flaw where
  position : Nat
  count : Nat
  reason : String

def isContinuation (b : UInt8) : Bool := 0x80 ≤ b && b < 0xc0

/-- The length of a sequence, the bits of its first byte, and the bounds of its second byte. -/
def lead? (b : UInt8) : Option (Nat × Nat × UInt8 × UInt8) :=
  if b < 0x80 then some (1, b.toNat, 0x80, 0xbf)
  else if 0xc2 ≤ b && b < 0xe0 then some (2, b.toNat - 0xc0, 0x80, 0xbf)
  else if b = 0xe0 then some (3, 0, 0xa0, 0xbf)
  else if b = 0xed then some (3, 0xd, 0x80, 0x9f)
  else if 0xe0 < b && b < 0xf0 then some (3, b.toNat - 0xe0, 0x80, 0xbf)
  else if b = 0xf0 then some (4, 0, 0x90, 0xbf)
  else if b = 0xf4 then some (4, 4, 0x80, 0x8f)
  else if 0xf0 < b && b < 0xf4 then some (4, b.toNat - 0xf0, 0x80, 0xbf)
  else none

/-- Adds continuation bytes to the bits of a sequence; `read` counts the bytes that belong to it so far. -/
def continuation (position read : Nat) (bits : Nat) : Nat → List UInt8 → Except Flaw (Nat × List UInt8)
  | 0, bs => .ok (bits, bs)
  | _ + 1, [] => .error ⟨position, read, "unexpected end of data"⟩
  | n + 1, b :: rest =>
    if isContinuation b then continuation position (read + 1) (bits * 64 + (b.toNat - 0x80)) n rest
    else .error ⟨position, read, "invalid continuation byte"⟩

/-- The sequence in front: its character, its length and what follows. -/
def sequence (position : Nat) (bs : List UInt8) : Except Flaw (Char × Nat × List UInt8) :=
  match bs with
  | [] => .error ⟨position, 0, "unexpected end of data"⟩
  | b :: rest =>
    match lead? b with
    | none => .error ⟨position, 1, "invalid start byte"⟩
    | some (length, bits, low, high) =>
      let bounded := match length, rest with
        | 1, _ => true
        | _, [] => true
        | _, c :: _ => low ≤ c && c ≤ high
      if !bounded then .error ⟨position, 1, "invalid continuation byte"⟩
      else
        match continuation position 1 bits (length - 1) rest with
        | .error f => .error f
        | .ok (n, tail) => .ok (Char.ofNat n, length, tail)

/-- The characters of UTF-8 text; `fuel` bounds their number. -/
def utf8Chars : Nat → Nat → List UInt8 → Except Flaw (List Char)
  | 0, _, _ => .ok []
  | _, _, [] => .ok []
  | fuel + 1, position, bs =>
    match sequence position bs with
    | .error f => .error f
    | .ok (c, length, rest) => (utf8Chars fuel (position + length) rest).map (c :: ·)

/-- What stands for bytes that cannot be read. -/
def replacement : Char := Char.ofNat 0xfffd

/-- The characters of UTF-8 text, where bytes that cannot be read give a mark; `fuel` bounds their number. -/
def lossyChars : Nat → List UInt8 → List Char
  | 0, _ => []
  | _, [] => []
  | fuel + 1, bs =>
    match sequence 0 bs with
    | .ok (c, _, rest) => c :: lossyChars fuel rest
    | .error f => replacement :: lossyChars fuel (bs.drop f.count)

/-- The characters of UTF-8 text, with a mark where bytes cannot be read. -/
def lossy (bs : List UInt8) : List Char := lossyChars bs.length bs

/-- A number from bytes, the most significant first. -/
def joinBytes (bs : List UInt8) : Nat := bs.foldl (fun n b => n * 256 + b.toNat) 0

/-- Numbers from groups of bytes, none larger than all characters; `fuel` bounds their number. -/
def groups (width : Nat) (bigEndian : Bool) : Nat → Nat → List UInt8 → Except Flaw (List Nat)
  | 0, _, _ => .ok []
  | _, _, [] => .ok []
  | fuel + 1, position, bs =>
    let unit := bs.take width
    let n := joinBytes (if bigEndian then unit else unit.reverse)
    if unit.length < width then .error ⟨position, unit.length, "truncated data"⟩
    else if 0x110000 ≤ n then .error ⟨position, width, "code point not in range(0x110000)"⟩
    else (groups width bigEndian fuel (position + width) (bs.drop width)).map (n :: ·)

/-- The character of a number. A surrogate is the number of none. -/
def charOf (lone : Char) (n : Nat) : Char := if n.isValidChar then Char.ofNat n else lone

/-- The characters of two-byte units. -/
def unitChars (lone : Char) : List Nat → List Char
  | high :: low :: rest =>
    if 0xd800 ≤ high && high < 0xdc00 && 0xdc00 ≤ low && low < 0xe000 then
      Char.ofNat (0x10000 + (high - 0xd800) * 0x400 + (low - 0xdc00)) :: unitChars lone rest
    else charOf lone high :: unitChars lone (low :: rest)
  | [n] => [charOf lone n]
  | [] => []

/-- The wording of a flaw. -/
def Flaw.message (scheme : String) (bs : List UInt8) (f : Flaw) : String :=
  let digits (n : Nat) : String := String.ofList (Nat.toDigits 10 n)
  let hex (b : UInt8) : String :=
    let ds := Nat.toDigits 16 b.toNat
    "0x" ++ String.ofList (List.replicate (2 - ds.length) '0' ++ ds)
  if f.count = 1 then
    "'" ++ scheme ++ "' codec can't decode byte " ++ hex ((bs.drop f.position).headD 0) ++ " in position " ++
      digits f.position ++ ": " ++ f.reason
  else
    "'" ++ scheme ++ "' codec can't decode bytes in position " ++ digits f.position ++ "-" ++
      digits (f.position + f.count - 1) ++ ": " ++ f.reason

/-- The characters of a byte string, or a message. -/
def decode (lone : Char) (bs : List UInt8) : Except String (List Char) :=
  match detect bs with
  | .utf8 => (utf8Chars bs.length 0 bs).mapError (Flaw.message "utf-8" bs)
  | .utf8Marked => (utf8Chars bs.length 0 (bs.drop 3)).mapError (Flaw.message "utf-8" (bs.drop 3))
  | .utf16 big mark =>
    let name := if big then "utf-16-be" else "utf-16-le"
    ((groups 2 big bs.length mark (bs.drop mark)).mapError (Flaw.message name bs)).map (unitChars lone)
  | .utf32 big mark =>
    let name := if big then "utf-32-be" else "utf-32-le"
    ((groups 4 big bs.length mark (bs.drop mark)).mapError (Flaw.message name bs)).map fun ns => ns.map (charOf lone)

end BlockFlow.Encoding
