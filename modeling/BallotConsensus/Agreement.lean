import BallotConsensus.Contract
import BallotConsensus.Exploration.Dual
import BallotConsensus.Outcome
import BallotConsensus.Reduction.Grouping

/-!
# Agreement: from the votes of a round to its outcome

The round is reduced and searched over whichever it has fewer groups of,
voters or attestations.  If that search runs out of budget, the other one
is tried with the same budget, starting from the worth reached so far, and
it replaces the first result only if it is strictly better.  To what is
still not optimal, everything is added that fits.

Every node of the network computes the same from the same votes, fees, total
weight, budget and seed.

* `Reduction.resolution` — the searches of a reduced round and their end;
* `Agreement.reach` — the whole computation.
-/

namespace BallotConsensus

/-- Operations that a search may spend unless told otherwise. -/
def defaultBudget : Nat := 20000000

/-- The searches of a reduced round and the assignment they end with. -/
structure Resolution where
  first : Run
  /-- The other search takes place only if the first one is not
  optimal. -/
  second : Option Run
  assignment : Assignment
  optimal : Bool

/-- The searches that took place, in order. -/
def Resolution.runs (resolution : Resolution) : List Run :=
  resolution.first :: resolution.second.toList

/-- The worth of a found assignment; nothing found is worth nothing. -/
def foundWorth (found : Option Assignment) : Worth :=
  match found with
  | some a => a.worth
  | none => .zero

/-- A later result replaces an earlier one only if it is strictly
better. -/
def improve : Option Assignment → Option Assignment → Option Assignment
  | earlier, none => earlier
  | none, some later => some later
  | some earlier, some later => if earlier.worth < later.worth then some later else some earlier

namespace Reduction

/-- Searches a reduced round.  Where nothing is found, all voters
participate; where the search is not optimal, whatever fits is added. -/
def resolution (r : Reduction) (budget : Nat) (seed : Seed) : Resolution :=
  let (leading, following) := Subject.fewerFirst r
  let first := r.search leading budget seed .zero
  let conclude (second : Option Run) (found : Option Assignment) (optimal : Bool) :
      Resolution :=
    let chosen := found.getD r.fullTurnout
    { first, second, optimal, assignment := if optimal then chosen else chosen.saturate r }
  if first.optimal then conclude none first.found true
  else
    let second := r.search following budget seed (foundWorth first.found)
    conclude (some second) (improve first.found second.found) second.optimal

end Reduction

/-- Why no outcome can be computed. -/
inductive AgreementError where
  /-- The round does not meet its contract. -/
  | contract (error : ContractError)
  /-- A coalition was found to outweigh everybody together. -/
  | overweight (weight total : Nat)
deriving DecidableEq, Repr

/-- The wording for a coalition that outweighs everybody together. -/
def overweightMessage (weight total : Nat) : String :=
  s!"coalition weight {weight} exceeds the total weight {total}"

/-- The wording of an agreement error. -/
def AgreementError.message : AgreementError → String
  | .contract error => error.message
  | .overweight weight total => overweightMessage weight total

/-- How an outcome was reached. -/
inductive Agreement where
  /-- There are no votes or no fees: nothing is agreed. -/
  | nothing (votes fees : Nat)
  /-- The round was reduced, searched and expanded again. -/
  | searched (votes : List WeightedBallot) (reduction : Reduction) (resolution : Resolution)
      (outcome : Outcome)

namespace Agreement

/-- The outcome that was reached. -/
def outcome : Agreement → Outcome
  | .nothing votes fees => .nothing votes fees
  | .searched _ _ _ outcome => outcome

/-- **Reaches an agreement** on a round.  `total` is the weight of every
eligible voter, whether it voted or not. -/
def reach (votes : List WeightedBallot) (fees : List Nat) (total budget : Nat) (seed : Seed) :
    Except AgreementError Agreement :=
  match Contract.check votes fees total with
  | .error error => .error (.contract error)
  | .ok () =>
    if votes.isEmpty || fees.isEmpty then
      .ok (.nothing votes.length fees.length)
    else
      let r := Reduction.ofRound votes fees total
      let resolution := r.resolution budget seed
      match resolution.runs.findSome? (·.overweight) with
      | some weight => .error (.overweight weight total)
      | none =>
        .ok (.searched votes r resolution
          (.expand votes.length fees.length r resolution.assignment resolution.optimal))

end Agreement

end BallotConsensus
