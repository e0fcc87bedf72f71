import StreamStat.Session.Run
import StreamStat.Proofs.Programs
import StreamStat.Proofs.Trace
import StreamStat.Proofs.Steps
import StreamStat.Proofs.Calls
import StreamStat.Proofs.Moves
import StreamStat.Proofs.Views
import StreamStat.Proofs.Counts
import StreamStat.Proofs.Nesting
import StreamStat.Proofs.Conservation
import StreamStat.Proofs.ValueOrder
import StreamStat.Proofs.Atomicity
import StreamStat.Proofs.RoundingOrder
import StreamStat.Proofs.DoubleLevel
import StreamStat.Proofs.FloatNumbers
import StreamStat.Proofs.Ramp
import StreamStat.Proofs.UniformArrays
import StreamStat.Proofs.DistributionFunction
import StreamStat.Proofs.NumberDoubles
import StreamStat.Proofs.DomainValidation
import StreamStat.Proofs.Support
import StreamStat.Proofs.ExactWidths
import StreamStat.Proofs.ConstructorFaults
import StreamStat.Proofs.WholeBounds
import StreamStat.Proofs.DoubleSums
import StreamStat.Proofs.RunningMean
import StreamStat.Proofs.RunningVariance
import StreamStat.Proofs.RegisterCalls
import StreamStat.Proofs.RegisterHistory
import StreamStat.Proofs.ExactMoments
import StreamStat.Proofs.Equality
import StreamStat.Proofs.SelfEquality
import StreamStat.Proofs.SetMembership
import StreamStat.Proofs.Likeness
import StreamStat.Proofs.AccountLikeness
import StreamStat.Proofs.Footprints
import StreamStat.Proofs.Lockstep
import StreamStat.Proofs.Interleaving
import StreamStat.Proofs.Independence
import StreamStat.Proofs.Extremes
import StreamStat.Proofs.Fusion
import StreamStat.Proofs.Rows
import StreamStat.Proofs.Sides
import StreamStat.Proofs.Twins
import StreamStat.Proofs.Copies
import StreamStat.Proofs.ExactMass
import StreamStat.Proofs.EqualDistributions
import StreamStat.Proofs.Endings
import StreamStat.Proofs.Showing
import StreamStat.Proofs.NestedCalls
import StreamStat.Proofs.Termination
