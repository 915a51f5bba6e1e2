import BranchPrediction.Main
import BranchPrediction.Proofs.Range.Reachable
import BranchPrediction.Proofs.Targets.CacheKinds
import BranchPrediction.Proofs.Counters.LastOutcome
import BranchPrediction.Proofs.Counters.MistakeBound
import BranchPrediction.Proofs.Perceptron.Separation
import BranchPrediction.Proofs.Steady.Perceptron
import BranchPrediction.Proofs.Steady.Unit
import BranchPrediction.Proofs.Counters.Renaming
import BranchPrediction.Proofs.Variants.NewestOutcomes
import BranchPrediction.Proofs.Variants.AddressOnly
import BranchPrediction.Proofs.Variants.SingleBranch
import BranchPrediction.Proofs.Variants.Gate
import BranchPrediction.Proofs.Isolation.RelocatedRuns
import BranchPrediction.Proofs.Isolation.Collisions
import BranchPrediction.Proofs.Replay.Composition
import BranchPrediction.Proofs.Replay.WrongFetches
import BranchPrediction.Proofs.Targets.GivingUp
import BranchPrediction.Proofs.Coding.Traces
import BranchPrediction.Proofs.Command.SeparateRuns
import BranchPrediction.Proofs.Targets.DirectMapped
import BranchPrediction.Proofs.Targets.SlotStates
import BranchPrediction.Proofs.Command.AllOrNothing
import BranchPrediction.Proofs.Recall.Counters
import BranchPrediction.Proofs.Perceptron.Updates
import BranchPrediction.Proofs.Perceptron.TrainedDown
import BranchPrediction.Proofs.Perceptron.SumWidth
import BranchPrediction.Proofs.Perceptron.Unsure
import BranchPrediction.Proofs.Config.Refusals
import BranchPrediction.Proofs.Range.LocalHistories
import BranchPrediction.Proofs.Recall.Registers
import BranchPrediction.Proofs.Recall.Folding
import BranchPrediction.Proofs.Workload.Feedback
