/-!
# Log events

What happens in a round is told by events.  An event has a level, a target
that names the part of the program it comes from, a message and named
fields.  Computations return the events beside their results; who listens
decides what becomes of them.

* `Level` — the five levels, numbered by severity through `Level.rank`;
* `Event` — one event.
-/

namespace BallotConsensus.Log

/-- How severe an event is, from the most severe on. -/
inductive Level where
  | error
  | warn
  | info
  | debug
  | trace
deriving DecidableEq, Repr

namespace Level

/-- The number of a level: the lower, the more severe. -/
def rank : Level → Nat
  | error => 1
  | warn => 2
  | info => 3
  | debug => 4
  | trace => 5

/-- The name of a level. -/
def name : Level → String
  | error => "ERROR"
  | warn => "WARN"
  | info => "INFO"
  | debug => "DEBUG"
  | trace => "TRACE"

/-- All levels, from the most severe on. -/
def all : List Level := [error, warn, info, debug, trace]

end Level

/-- Something worth telling. -/
structure Event where
  level : Level
  /-- The part of the program that tells it. -/
  target : String
  message : String
  /-- Named values, in the order in which they are told. -/
  fields : List (String × String)
deriving DecidableEq, Repr

end BallotConsensus.Log
