/-!
# JSON values

A JSON value as it is written.  A number is its own literal, since a reader
decides what it accepts by how a number is written: `1`, `1.0` and `1e0` are
three literals.  A string may be written so that it stands for no text, when
it holds half of a surrogate pair; such a string is kept apart.

* `Json` — the values;
* `Json.natural?` — the natural number that a literal writes.
-/

namespace BallotConsensus

/-- A string as it stands in a JSON document. -/
inductive JsonString where
  | text (value : String)
  /-- Half of a surrogate pair is left alone: this stands for no text. -/
  | halfPair
deriving DecidableEq, Repr

/-- A JSON value. -/
inductive Json where
  | null
  | bool (value : Bool)
  | number (literal : String)
  | string (value : JsonString)
  | array (items : List Json)
  | object (members : List (JsonString × Json))

namespace Json

/-- The literal of a natural number. -/
def ofNat (n : Nat) : Json := .number (toString n)

/-- The string with the given text. -/
def ofString (text : String) : Json := .string (.text text)

/-- An object with the given members. -/
def record (members : List (String × Json)) : Json :=
  .object (members.map fun (key, value) => (.text key, value))

/-- The natural number below `bound` that a value writes as a plain row of
digits. -/
def natural? (bound : Nat) : Json → Option Nat
  | .number literal =>
    let digits := literal.toList
    if digits.all Char.isDigit then
      let n := digits.foldl (fun n digit => 10 * n + (digit.toNat - '0'.toNat)) 0
      if n < bound then some n else none
    else none
  | _ => none

/-- The text of a string. -/
def text? : Json → Option String
  | .string (.text value) => some value
  | _ => none

/-- The items of an array. -/
def items? : Json → Option (List Json)
  | .array items => some items
  | _ => none

end Json

end BallotConsensus
