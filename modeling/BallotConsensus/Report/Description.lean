import BallotConsensus.Json.Reader
import BallotConsensus.Report

/-!
# Round descriptions in JSON

A round description is an object with the members `round-id`,
`voter-weights`, `fees` and, if there are any messages, `bit-votes`.  A
message is an object with the members `from`, `voting-round` and `payload`.
Both may also be written as arrays of their members in this order.

Members may come in any order, but none twice.  The description has no other
members; those of a message are ignored.  Weights and numbers are plain
natural numbers below `2 ^ 64`, fees are strings of decimal digits.

* `RoundDescription.ofJson?`, `RoundDescription.read?` — reading;
* `Fee.read?` — the fee that a string writes.
-/

namespace BallotConsensus

namespace Fee

/-- Reads a fee: digits and, except in front, underscores between them; one
plus sign may lead. -/
def read? (text : String) : Option Nat :=
  let digits := match text.toList with
    | '+' :: cs => cs
    | cs => cs
  match digits with
  | [] => none
  | '_' :: _ => none
  | digits =>
    if digits.all fun c => c.isDigit || c == '_' then
      some ((digits.filter (· != '_')).foldl
        (fun n digit => 10 * n + (digit.toNat - '0'.toNat)) 0)
    else none

end Fee

namespace Json

/-- A natural number below `2 ^ 64`. -/
def word? (value : Json) : Option Nat := value.natural? (2 ^ 64)

/-- The values of the named members of an object, in the order of the
names; `none` for a name that is missing.  There are none at all if a named
member occurs twice, if a key stands for no text, or if an unnamed member
occurs although `strict` forbids it. -/
def members? (names : List String) (strict : Bool) (members : List (JsonString × Json)) :
    Option (List (Option Json)) :=
  let keys := members.map (·.1)
  if keys.contains .halfPair then none
  else if strict && keys.any fun key => !names.any fun name => key == .text name then none
  else names.mapM fun name =>
    match members.filter fun (key, _) => key == .text name with
    | [] => some none
    | [(_, value)] => some (some value)
    | _ => none

end Json

namespace Submission

/-- The message with the given members. -/
def ofMembers? (sender round payload : Json) : Option Submission := do
  some ⟨← sender.word?, ← round.word?, ← payload.text?⟩

/-- Reads a message. -/
def ofJson? : Json → Option Submission
  | .array [sender, round, payload] => ofMembers? sender round payload
  | .object members =>
    match Json.members? ["from", "voting-round", "payload"] false members with
    | some [some sender, some round, some payload] => ofMembers? sender round payload
    | _ => none
  | _ => none

end Submission

namespace RoundDescription

/-- The description with the given members; messages may be missing. -/
def ofMembers? (round weights fees : Json) (messages : Option Json) :
    Option RoundDescription := do
  let round ← round.word?
  let weights ← (← weights.items?).mapM Json.word?
  let fees ← (← fees.items?).mapM fun fee => fee.text?.bind Fee.read?
  let messages ← match messages with
    | some messages => messages.items?.bind (·.mapM Submission.ofJson?)
    | none => some []
  some ⟨round, weights, fees, messages⟩

/-- Reads a description. -/
def ofJson? : Json → Option RoundDescription
  | .array [round, weights, fees] => ofMembers? round weights fees none
  | .array [round, weights, fees, messages] => ofMembers? round weights fees (some messages)
  | .object members =>
    match Json.members? ["round-id", "voter-weights", "fees", "bit-votes"] true members with
    | some [some round, some weights, some fees, messages] =>
      ofMembers? round weights fees messages
    | _ => none
  | _ => none

/-- The description that a JSON document holds. -/
def read? (document : String) : Option RoundDescription :=
  (Json.read? document).bind ofJson?

end RoundDescription

end BallotConsensus
