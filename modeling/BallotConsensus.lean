import BallotConsensus.Main
import BallotConsensus.Proofs.Exploration
import BallotConsensus.Proofs.Flags
import BallotConsensus.Proofs.Worth
import BallotConsensus.Proofs.Exploration.Budget
import BallotConsensus.Proofs.Reduction.Grouping
import BallotConsensus.Proofs.Reduction.Settling
import BallotConsensus.Proofs.Round
import BallotConsensus.Proofs.Reduction.Representation
import BallotConsensus.Proofs.Assignment
import BallotConsensus.Proofs.Exploration.Dual
import BallotConsensus.Proofs.Exploration.Search
import BallotConsensus.Proofs.Resolution
import BallotConsensus.Proofs.Expansion
import BallotConsensus.Proofs.Agreement
import BallotConsensus.Proofs.Agreement.Budget
import BallotConsensus.Proofs.Exploration.Ties
import BallotConsensus.Proofs.Exploration.Optimum
import BallotConsensus.Proofs.Reduction.Optimum
import BallotConsensus.Proofs.Exploration.Nodes
import BallotConsensus.Proofs.Hex
import BallotConsensus.Proofs.Ballot.Payload
import BallotConsensus.Proofs.Collector
import BallotConsensus.Proofs.Reception
import BallotConsensus.Proofs.Report
import BallotConsensus.Proofs.Agreement.Limits
import BallotConsensus.Proofs.Parts
import BallotConsensus.Proofs.Exploration.Unnamed
import BallotConsensus.Proofs.Reduction.Finer
import BallotConsensus.Proofs.Agreement.Splitting
import BallotConsensus.Proofs.Agreement.Minority
import BallotConsensus.Proofs.Agreement.Unanimity
import BallotConsensus.Proofs.Admission
import BallotConsensus.Proofs.Report.Failure
import BallotConsensus.Proofs.Ballot.PlainForm
import BallotConsensus.Proofs.Exploration.Operations
import BallotConsensus.Proofs.Exploration.Threshold
import BallotConsensus.Proofs.Contract
import BallotConsensus.Proofs.Hex.Spelling
import BallotConsensus.Proofs.Ballot.Grammar
import BallotConsensus.Proofs.Assignment.Saturation
import BallotConsensus.Proofs.Exploration.Closure
import BallotConsensus.Proofs.Agreement.Maximality
import BallotConsensus.Proofs.Exploration.Evaluations
import BallotConsensus.Proofs.Resolution.Retention
import BallotConsensus.Proofs.Reduction.ClosedForm
import BallotConsensus.Proofs.Reduction.Concise
import BallotConsensus.Proofs.Expansion.Lossless
import BallotConsensus.Proofs.Ballot.Canonical
import BallotConsensus.Proofs.Exploration.Bounds
import BallotConsensus.Proofs.Random.Shuffle
import BallotConsensus.Proofs.Exploration.Bookkeeping
