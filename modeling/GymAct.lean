import GymAct.CutReplay
import GymAct.KernelMaterialize
import GymAct.KernelTeardown
import GymAct.LoopBudget
import GymAct.PowlConformance
import GymAct.PowlGuarded
import GymAct.PowlLiveness
import GymAct.PowlTermination
import GymAct.PowlTurtle
import GymAct.Receipted
import GymAct.SelfReport
import GymAct.SqliteLedger
import GymAct.Evolution
import GymAct.Chain
import GymAct.Agreements
import GymAct.Bills
import GymAct.Breadth
import GymAct.CloudSim
import GymAct.DependencyWorld
import GymAct.Entitlements
import GymAct.Epistemic
import GymAct.Quorum
import GymAct.EpisodeLog
import GymAct.GgenAgent
import GymAct.Arrangements
import GymAct.Autonomic
import GymAct.CompileoutGraph
import GymAct.PowlConcurrency
import GymAct.PowlCounting
import GymAct.PowlFrequency
import GymAct.PowlWitness
import GymAct.PolicyEcology
import GymAct.PolicyEcologyStore
import GymAct.PowlNormal
import GymAct.KantorovichComponents
import GymAct.KantorovichRecovery
import GymAct.GraphUnion
import GymAct.ParetoFrontier
import GymAct.PossibilityDocument
import GymAct.PossibilityRdf
import GymAct.RdfRoundTrip
import GymAct.StructuralScan
import GymAct.HarnessContracts
import GymAct.HarnessRedaction
import GymAct.HarnessRollback
import GymAct.AutonomicReruns
import GymAct.ForkJoin
import GymAct.PowlThreads
import GymAct.CausalClock
import GymAct.CycleDetection
import GymAct.EvidenceCutset
import GymAct.EvidenceGraph
import GymAct.LockAndKey
import GymAct.QuorumSelectors
import GymAct.CascadeDedup
import GymAct.Cmca
import GymAct.EpistemicGrounding
import GymAct.PathAlgebra
import GymAct.LoopHistory
import GymAct.LoopAdmission
import GymAct.LoopAccounting
import GymAct.ResourceFlow
import GymAct.Restores
import GymAct.IdentityBindings
import GymAct.FactoryRuns
import GymAct.UnauthorizedPath
import GymAct.EnvRigger
import GymAct.WorldContracts
import GymAct.LoopLog
