import GuardedActions.Bench
import GuardedActions.Histogram
import GuardedActions.Settings
import GuardedActions.Proofs.CallGraph
import GuardedActions.Registration
import GuardedActions.Proofs.Extension
import GuardedActions.Proofs.WellFormed
import GuardedActions.Proofs.Frozen
import GuardedActions.Proofs.Elaboration.Acyclic
import GuardedActions.Proofs.Elaboration.Closure
import GuardedActions.Proofs.Elaboration.Definition
import GuardedActions.Proofs.Elaboration.Order
import GuardedActions.Proofs.Elaboration.Conflict
import GuardedActions.Proofs.Elaboration.Flood
import GuardedActions.Proofs.Elaboration.Cluster
import GuardedActions.Proofs.Elaborated
import GuardedActions.Proofs.Scheduling.Arbitration
import GuardedActions.Proofs.Scheduling.Grant
import GuardedActions.Proofs.Scheduling.Activation
import GuardedActions.Proofs.Scheduling.Outcome
import GuardedActions.Proofs.GreedyArbitration
import GuardedActions.Proofs.MutualExclusion
import GuardedActions.Proofs.Execution.Trace
import GuardedActions.Proofs.Execution.Account
import GuardedActions.Proofs.ExactlyOnce
import GuardedActions.Proofs.Execution.Cooperation
import GuardedActions.Proofs.Execution.Progress
import GuardedActions.Proofs.NoFatalError
import GuardedActions.Proofs.Execution.Discipline
import GuardedActions.Proofs.Elaboration.Tie
import GuardedActions.Proofs.CallPath
import GuardedActions.Proofs.Admission
import GuardedActions.Proofs.ConflictRelation
import GuardedActions.Proofs.Scheduling.Requests
import GuardedActions.Proofs.Scheduling.Inquiry
import GuardedActions.Proofs.Runnability
import GuardedActions.Proofs.Coherence
import GuardedActions.Proofs.Mask
import GuardedActions.Proofs.Element
import GuardedActions.Proofs.Element.Traffic
import GuardedActions.Proofs.Element.Family
import GuardedActions.Proofs.DoubleBuffer
import GuardedActions.Proofs.Block.Merge
import GuardedActions.Proofs.Block.Cycle
import GuardedActions.Proofs.Block.Bank
import GuardedActions.Proofs.IdealMemory
import GuardedActions.Proofs.Record
import GuardedActions.Proofs.Block.AssociativeMemory
import GuardedActions.Proofs.BoundedMultiset
import GuardedActions.Proofs.Block.Station
import GuardedActions.Proofs.Block.Residence
import GuardedActions.Proofs.SlotLifecycle
import GuardedActions.Proofs.MemoryOrder
import GuardedActions.Proofs.OldestReady
import GuardedActions.Proofs.Wakeup
import GuardedActions.Proofs.GuestCalls
import GuardedActions.Proofs.Execution.Storage
import GuardedActions.Proofs.Execution.Story
import GuardedActions.Proofs.Execution.Answer
import GuardedActions.Proofs.Execution.Telling
import GuardedActions.Proofs.Execution.Hindsight
import GuardedActions.Proofs.Execution.Replay
import GuardedActions.Proofs.OrderIndependence
import GuardedActions.Proofs.Rearrangement
import GuardedActions.Proofs.Declarations
import GuardedActions.Proofs.Scheduling.Valuation
import GuardedActions.Proofs.Scheduling.Rank
import GuardedActions.Proofs.RegistrationOrder
import GuardedActions.Proofs.Execution.Journal
import GuardedActions.Proofs.Execution.Within
import GuardedActions.Proofs.Session
import GuardedActions.Proofs.Block.Reset
import GuardedActions.Proofs.FreshRun
import GuardedActions.Proofs.Execution.Performing
import GuardedActions.Proofs.Block.Allocation
import GuardedActions.Proofs.Block.Hosted
import GuardedActions.Proofs.Execution.Clocked
import GuardedActions.Proofs.Block.HostedStation
import GuardedActions.Proofs.Block.Install
import GuardedActions.Proofs.FenceHold
import GuardedActions.Proofs.Packing
import GuardedActions.Proofs.DriverLoops
import GuardedActions.Proofs.MagnitudeCounts
import GuardedActions.Proofs.StallStatistics
import GuardedActions.Proofs.PassiveObservation
import GuardedActions.Proofs.BestCaller
import GuardedActions.Proofs.CycleReport
import GuardedActions.Proofs.FailedAttempts
import GuardedActions.Proofs.Execution.Steps
import GuardedActions.Proofs.Block.Requester
import GuardedActions.Proofs.Delivery
import GuardedActions.Proofs.Encoder
import GuardedActions.Proofs.LowestRequests
import GuardedActions.Proofs.WindowOrder
import GuardedActions.Proofs.MaskedWrites
import GuardedActions.Proofs.RingAge
import GuardedActions.Proofs.IndependentFields
import GuardedActions.Proofs.ConflictComponents
import GuardedActions.Proofs.Recursion
import GuardedActions.Proofs.Elaboration.Ending
import GuardedActions.Proofs.Scheduling.Descent
import GuardedActions.Proofs.BoundedRecursion
