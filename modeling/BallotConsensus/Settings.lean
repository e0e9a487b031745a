import BallotConsensus.Agreement
import BallotConsensus.Hex

/-!
# Settings

Settings are read from a TOML document that has at most one entry,
`max-operations`: the budget of each search, a positive integer.  Every node
of the network has to use the same budget to agree with the others.

The documents that are accepted are the TOML documents without tables and
with no other entry, so only the rules for blank lines, comments, keys and
integers matter here; whatever else a document holds, it is refused as a
whole.

* `Settings.ofDocument` — the settings in a document;
* `Settings.ofFile` — the settings in a file that may be missing.
-/

namespace BallotConsensus

/-- What a user can set. -/
structure Settings where
  /-- Operations that each search may spend. -/
  budget : Nat
deriving DecidableEq, Repr

namespace Settings

/-- What holds without a settings file. -/
def default : Settings := ⟨defaultBudget⟩

/-- Why settings cannot be used. -/
inductive Error where
  /-- The file cannot be read. -/
  | missing
  /-- The document is no settings document. -/
  | malformed
  /-- A budget of no operations is set. -/
  | zeroBudget
deriving DecidableEq, Repr

/-- The wording of a settings error.  What exactly is malformed stays
hidden, since settings files may hold secrets. -/
def Error.message (path : String) : Error → String
  | .missing => "No such file or directory (os error 2)"
  | .malformed =>
      "failed to parse TOML config at: " ++ path
        ++ ". Set TOML_TRACE_ERROR=1 to print parsing error but this may leak secrets."
  | .zeroBudget => "max-operations must be positive"

/-! ## Lines -/

/-- Cuts off the carriage return that may stand before a line feed. -/
def dropReturn (line : List Char) : List Char :=
  if line.getLast? = some '\r' then line.dropLast else line

/-- The lines of a document.  A line ends with a line feed, alone or after a
carriage return; the last line just ends. -/
def linesOf (document : List Char) : List (List Char) :=
  let lines := document.splitOn '\n'
  lines.dropLast.map dropReturn ++ lines.getLast?.toList

/-- Whether a character may stand in a comment: no control character but the
tab. -/
def isCommentChar (c : Char) : Bool := c == '\t' || 32 ≤ c.toNat && c.toNat != 127

/-- Whether a character is a blank within a line. -/
def isBlank (c : Char) : Bool := c == ' ' || c == '\t'

/-- Whether the rest of a line holds nothing but blanks and a comment. -/
def endsLine (cs : List Char) : Bool :=
  match cs.dropWhile isBlank with
  | [] => true
  | '#' :: comment => comment.all isCommentChar
  | _ => false

/-! ## Keys -/

/-- Whether a character may stand in a key without quotes. -/
def isBareKeyChar (c : Char) : Bool := c.isAlphanum || c == '_' || c == '-'

/-- The character whose number is written with the given hexadecimal
digits. -/
def numberedChar? (digits : List Char) : Option Char := do
  let n ← digits.foldlM (fun n digit => (Hex.charValue? digit).map (16 * n + ·)) 0
  if n.isValidChar then some (Char.ofNat n) else none

/-- The character that a short escape stands for. -/
def escaped? : Char → Option Char
  | 'b' => some '\x08'
  | 't' => some '\t'
  | 'n' => some '\n'
  | 'f' => some '\x0c'
  | 'r' => some '\r'
  | '"' => some '"'
  | '\\' => some '\\'
  | _ => none

/-- The body of a key between double quotes, and what follows.  `fuel`
bounds its length, `read` holds what was read so far, the latest first. -/
def quotedKey? : (fuel : Nat) → (read : List Char) → List Char → Option (List Char × List Char)
  | 0, _, _ => none
  | fuel + 1, read, cs =>
    match cs with
    | '"' :: cs => some (read.reverse, cs)
    | '\\' :: 'u' :: cs =>
      if cs.length < 4 then none
      else (numberedChar? (cs.take 4)).bind fun c => quotedKey? fuel (c :: read) (cs.drop 4)
    | '\\' :: 'U' :: cs =>
      if cs.length < 8 then none
      else (numberedChar? (cs.take 8)).bind fun c => quotedKey? fuel (c :: read) (cs.drop 8)
    | '\\' :: e :: cs => (escaped? e).bind fun c => quotedKey? fuel (c :: read) cs
    | c :: cs => if c == '\\' || !isCommentChar c then none else quotedKey? fuel (c :: read) cs
    | [] => none

/-- A key, and what follows it in its line. -/
def key? (cs : List Char) : Option (List Char × List Char) :=
  match cs with
  | '"' :: cs => quotedKey? (cs.length + 1) [] cs
  | '\'' :: cs =>
    let body := cs.takeWhile (· != '\'')
    match cs.drop body.length with
    | '\'' :: cs => if body.all isCommentChar then some (body, cs) else none
    | _ => none
  | cs =>
    match cs.takeWhile isBareKeyChar with
    | [] => none
    | key => some (key, cs.drop key.length)

/-! ## Integers -/

/-- The number written by digits of a base, with single underscores between
them. -/
def digitsValue? (base : Nat) (digits : List Char) : Option Nat :=
  let groups := digits.splitOn '_'
  if groups.any (·.isEmpty) then none
  else groups.flatten.foldlM (fun n digit => do
    let value ← Hex.charValue? digit
    if value < base then some (base * n + value) else none) 0

/-- The absolute value of a decimal integer: no zero in front of other
digits. -/
def decimal? (digits : List Char) : Option Nat :=
  match digits with
  | '0' :: _ :: _ => none
  | digits => digitsValue? 10 digits

/-- The largest integer that a document can hold. -/
def largestInteger : Nat := 2 ^ 63 - 1

/-- The natural number that an integer writes: decimal with or without a
sign, or hexadecimal, octal or binary after a mark.  A minus sign is
accepted in front of zero only. -/
def natural? (cs : List Char) : Option Nat := do
  let n ← match cs with
    | '0' :: 'x' :: digits => digitsValue? 16 digits
    | '0' :: 'o' :: digits => digitsValue? 8 digits
    | '0' :: 'b' :: digits => digitsValue? 2 digits
    | '+' :: digits => decimal? digits
    | '-' :: digits => (decimal? digits).filter (· == 0)
    | digits => decimal? digits
  if n ≤ largestInteger then some n else none

/-! ## Documents -/

/-- What a line holds. -/
inductive Line where
  | nothing
  | budget (operations : Nat)
deriving DecidableEq, Repr

/-- Whether a character may stand in an integer. -/
def isIntegerChar (c : Char) : Bool := c.isAlphanum || c == '_' || c == '+' || c == '-'

/-- What a line holds, if it may stand in a settings document. -/
def line? (cs : List Char) : Option Line :=
  if endsLine cs then some .nothing
  else do
    let (key, rest) ← key? (cs.dropWhile isBlank)
    if key != "max-operations".toList then none
    else match rest.dropWhile isBlank with
      | '=' :: rest =>
        let rest := rest.dropWhile isBlank
        let value := rest.takeWhile isIntegerChar
        if endsLine (rest.drop value.length) then (natural? value).map .budget else none
      | _ => none

/-- The text after a byte order mark, which may introduce a document. -/
def dropMark (document : List Char) : List Char :=
  match document with
  | '\ufeff' :: document => document
  | document => document

/-- The settings in a document. -/
def ofDocument (document : String) : Except Error Settings :=
  match (linesOf (dropMark document.toList)).mapM line? with
  | none => .error .malformed
  | some lines =>
    match lines.filter (· != .nothing) with
    | [] => .ok default
    | [.budget operations] => if operations = 0 then .error .zeroBudget else .ok ⟨operations⟩
    | _ => .error .malformed

/-- The settings in a file, given by its text if it can be read. -/
def ofFile : Option String → Except Error Settings
  | some document => ofDocument document
  | none => .error .missing

end Settings

end BallotConsensus
