import BallotConsensus.Json

/-!
# Printing JSON

Values are printed for people to read: every item and member stands on a
line of its own, two spaces deeper than what encloses it.  Empty arrays and
objects stay on one line.

* `Json.pretty` — the printed value;
* `Json.compact` — the same on one line, without any blanks.
-/

namespace BallotConsensus.Json

/-- The lower-case hexadecimal digit of a number below sixteen. -/
def hexDigit (n : Nat) : Char := Nat.digitChar n

/-- How a character is written in a string. -/
def escape (c : Char) : List Char :=
  match c with
  | '"' => ['\\', '"']
  | '\\' => ['\\', '\\']
  | '\x08' => ['\\', 'b']
  | '\x0c' => ['\\', 'f']
  | '\n' => ['\\', 'n']
  | '\r' => ['\\', 'r']
  | '\t' => ['\\', 't']
  | c =>
    if c.toNat < 32 then
      ['\\', 'u', '0', '0', hexDigit (c.toNat / 16), hexDigit (c.toNat % 16)]
    else [c]

/-- A string between its quotes.  A string that stands for no text is
written as an escape that stands for none. -/
def JsonString.written : JsonString → String
  | .text value => "\"" ++ String.ofList (value.toList.flatMap escape) ++ "\""
  | .halfPair => "\"\\ud800\""

/-- The spaces in front of a line. -/
def indentation (depth : Nat) : String := String.ofList (List.replicate (2 * depth) ' ')

/-- Lines between an opening and a closing mark. -/
def enclose (depth : Nat) (opening closing : String) (lines : List String) : String :=
  if lines.isEmpty then opening ++ closing
  else
    let inner := indentation (depth + 1)
    opening ++ "\n" ++ String.intercalate ",\n" (lines.map (inner ++ ·)) ++ "\n"
      ++ indentation depth ++ closing

mutual

/-- A value whose first line continues one at the given depth. -/
def prettyAt (depth : Nat) : Json → String
  | .null => "null"
  | .bool value => if value then "true" else "false"
  | .number literal => literal
  | .string value => JsonString.written value
  | .array items => enclose depth "[" "]" (prettyItems (depth + 1) items)
  | .object members => enclose depth "\x7b" "\x7d" (prettyMembers (depth + 1) members)

def prettyItems (depth : Nat) : List Json → List String
  | [] => []
  | item :: items => prettyAt depth item :: prettyItems depth items

def prettyMembers (depth : Nat) : List (JsonString × Json) → List String
  | [] => []
  | (key, value) :: members =>
    (JsonString.written key ++ ": " ++ prettyAt depth value) :: prettyMembers depth members

end

/-- A printed value. -/
def pretty (value : Json) : String := prettyAt 0 value

mutual

/-- A value on one line. -/
def compact : Json → String
  | .null => "null"
  | .bool value => if value then "true" else "false"
  | .number literal => literal
  | .string value => JsonString.written value
  | .array items => "[" ++ String.intercalate "," (compactItems items) ++ "]"
  | .object members => "\x7b" ++ String.intercalate "," (compactMembers members) ++ "\x7d"

def compactItems : List Json → List String
  | [] => []
  | item :: items => compact item :: compactItems items

def compactMembers : List (JsonString × Json) → List String
  | [] => []
  | (key, value) :: members =>
    (JsonString.written key ++ ":" ++ compact value) :: compactMembers members

end

end BallotConsensus.Json
