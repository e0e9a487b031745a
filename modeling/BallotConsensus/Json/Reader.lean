import BallotConsensus.Hex
import BallotConsensus.Json

/-!
# Reading JSON

A strict reader of JSON documents: one value, with nothing but blanks around
it.  Blanks are spaces, tabs, line feeds and carriage returns.

Reading is total: every step takes at least one character off the text, so
twice its length, with a little to spare, bounds the depth of the recursion.

* `Json.read?` — the value of a document, if it is one.
-/

namespace BallotConsensus.Json

/-- What is left of a text. -/
abbrev Rest := List Char

/-- Whether a character may stand between the parts of a document. -/
def isBlank (c : Char) : Bool := c == ' ' || c == '\t' || c == '\n' || c == '\r'

/-- Drops leading blanks. -/
def skipBlanks (cs : Rest) : Rest := cs.dropWhile isBlank

/-- What follows a literal word, if the text starts with it. -/
def afterWord? (word : List Char) (cs : Rest) : Option Rest :=
  if word.isPrefixOf cs then some (cs.drop word.length) else none

/-- The leading digits, at least one, and what follows. -/
def digits? (cs : Rest) : Option (List Char × Rest) :=
  match cs.takeWhile Char.isDigit with
  | [] => none
  | digits => some (digits, cs.drop digits.length)

/-- The integer part of a number: no zero in front of other digits. -/
def integerPart? (cs : Rest) : Option (List Char × Rest) :=
  match digits? cs with
  | some ('0' :: _ :: _, _) => none
  | result => result

/-- A fraction, if there is one.  A point must be followed by digits. -/
def fraction? : Rest → Option (List Char × Rest)
  | '.' :: cs => (digits? cs).map fun (digits, cs) => ('.' :: digits, cs)
  | cs => some ([], cs)

/-- An exponent, if there is one.  Its letter must be followed by digits,
with or without a sign. -/
def exponent? (cs : Rest) : Option (List Char × Rest) :=
  let body (mark : List Char) (cs : Rest) :=
    (digits? cs).map fun (digits, cs) => (mark ++ digits, cs)
  match cs with
  | c :: s :: cs =>
    if c == 'e' || c == 'E' then
      if s == '+' || s == '-' then body [c, s] cs else body [c] (s :: cs)
    else some ([], c :: s :: cs)
  | [c] => if c == 'e' || c == 'E' then none else some ([], [c])
  | [] => some ([], [])

/-- A number literal. -/
def readNumber? (cs : Rest) : Option (Json × Rest) := do
  let (sign, cs) := match cs with
    | '-' :: cs => (['-'], cs)
    | cs => ([], cs)
  let (whole, cs) ← integerPart? cs
  let (fraction, cs) ← fraction? cs
  let (exponent, cs) ← exponent? cs
  some (.number (String.ofList (sign ++ whole ++ fraction ++ exponent)), cs)

/-- Four hexadecimal digits. -/
def fourDigits? : Rest → Option (Nat × Rest)
  | a :: b :: c :: d :: cs => do
    let a ← Hex.charValue? a
    let b ← Hex.charValue? b
    let c ← Hex.charValue? c
    let d ← Hex.charValue? d
    some (4096 * a + 256 * b + 16 * c + d, cs)
  | _ => none

/-- The character that a short escape stands for. -/
def escaped? : Char → Option Char
  | '"' => some '"'
  | '\\' => some '\\'
  | '/' => some '/'
  | 'b' => some '\x08'
  | 'f' => some '\x0c'
  | 'n' => some '\n'
  | 'r' => some '\r'
  | 't' => some '\t'
  | _ => none

/-- Whether a number is the first half of a surrogate pair. -/
def isHighHalf (n : Nat) : Bool := 0xD800 ≤ n && n ≤ 0xDBFF

/-- Whether a number is the second half of a surrogate pair. -/
def isLowHalf (n : Nat) : Bool := 0xDC00 ≤ n && n ≤ 0xDFFF

/-- The body of a string after its opening quote.  `units` holds what was
read so far, the latest first: characters, and halves of surrogate pairs by
their numbers. -/
def stringBody? : (fuel : Nat) → (units : List Nat) → Rest → Option (List Nat × Rest)
  | 0, _, _ => none
  | fuel + 1, units, cs =>
    match cs with
    | '"' :: cs => some (units.reverse, cs)
    | '\\' :: 'u' :: cs =>
      match fourDigits? cs with
      | some (unit, cs) => stringBody? fuel (unit :: units) cs
      | none => none
    | '\\' :: c :: cs =>
      match escaped? c with
      | some e => stringBody? fuel (e.toNat :: units) cs
      | none => none
    | c :: cs => if c.toNat < 32 || c == '\\' then none else stringBody? fuel (c.toNat :: units) cs
    | [] => none

/-- The characters that units stand for: two halves of a surrogate pair are
one character, a half alone is none. -/
def joinHalves? : List Nat → List Char → Option (List Char)
  | [], chars => some chars.reverse
  | [unit], chars =>
    if isHighHalf unit || isLowHalf unit then none else some (Char.ofNat unit :: chars).reverse
  | unit :: next :: units, chars =>
    if isHighHalf unit then
      if isLowHalf next then
        joinHalves? units
          (Char.ofNat (0x10000 + 1024 * (unit - 0xD800) + (next - 0xDC00)) :: chars)
      else none
    else if isLowHalf unit then none
    else joinHalves? (next :: units) (Char.ofNat unit :: chars)

/-- A string after its opening quote. -/
def readString? (cs : Rest) : Option (JsonString × Rest) :=
  (stringBody? (cs.length + 1) [] cs).map fun (units, cs) =>
    match joinHalves? units [] with
    | some chars => (.text (String.ofList chars), cs)
    | none => (.halfPair, cs)

mutual

/-- A value, after leading blanks. -/
def readValue? : (fuel : Nat) → Rest → Option (Json × Rest)
  | 0, _ => none
  | fuel + 1, cs =>
    match skipBlanks cs with
    | '"' :: cs => (readString? cs).map fun (value, cs) => (.string value, cs)
    | '[' :: cs =>
      match skipBlanks cs with
      | ']' :: cs => some (.array [], cs)
      | cs => readItems? fuel [] cs
    | '\x7b' :: cs =>
      match skipBlanks cs with
      | '\x7d' :: cs => some (.object [], cs)
      | cs => readMembers? fuel [] cs
    | 'n' :: cs => (afterWord? ['u', 'l', 'l'] cs).map fun cs => (.null, cs)
    | 't' :: cs => (afterWord? ['r', 'u', 'e'] cs).map fun cs => (.bool true, cs)
    | 'f' :: cs => (afterWord? ['a', 'l', 's', 'e'] cs).map fun cs => (.bool false, cs)
    | cs => readNumber? cs

/-- The items of an array up to its closing bracket; `read` holds the ones
read so far, the latest first. -/
def readItems? : (fuel : Nat) → (read : List Json) → Rest → Option (Json × Rest)
  | 0, _, _ => none
  | fuel + 1, read, cs =>
    match readValue? fuel cs with
    | none => none
    | some (item, cs) =>
      match skipBlanks cs with
      | ',' :: cs => readItems? fuel (item :: read) cs
      | ']' :: cs => some (.array (item :: read).reverse, cs)
      | _ => none

/-- The members of an object up to its closing brace; `read` holds the ones
read so far, the latest first. -/
def readMembers? : (fuel : Nat) → (read : List (JsonString × Json)) → Rest → Option (Json × Rest)
  | 0, _, _ => none
  | fuel + 1, read, cs =>
    match skipBlanks cs with
    | '"' :: cs =>
      match readString? cs with
      | none => none
      | some (key, cs) =>
        match skipBlanks cs with
        | ':' :: cs =>
          match readValue? fuel cs with
          | none => none
          | some (value, cs) =>
            match skipBlanks cs with
            | ',' :: cs => readMembers? fuel ((key, value) :: read) cs
            | '\x7d' :: cs => some (.object ((key, value) :: read).reverse, cs)
            | _ => none
        | _ => none
    | _ => none

end

/-- The value of a document, if the text is one. -/
def read? (text : String) : Option Json :=
  let cs := text.toList
  match readValue? (2 * cs.length + 2) cs with
  | some (value, rest) => if (skipBlanks rest).isEmpty then some value else none
  | none => none

end BallotConsensus.Json
