import Jitgen.Properties.ScreenedRuns
import Jitgen.Properties.StrongCatch
import Jitgen.Properties.JudgeMonotone
import Jitgen.Properties.ChangedLines
import Jitgen.Properties.FenceContainment
import Jitgen.Properties.HardenFidelity
import Jitgen.Properties.ModeExclusivity
import Jitgen.Orchestrator.Executor
import Jitgen.Orchestrator.Sessions
import Jitgen.Properties.CrashResume
import Jitgen.Properties.ConcurrentRuns
import Jitgen.Properties.ReportFreshness
import Jitgen.Properties.PolicyFreshness
import Jitgen.Properties.PatchSoundness
import Jitgen.Properties.MutantFidelity
import Jitgen.Properties.PatchCompleteness
import Jitgen.Properties.PatchRoundTrip
import Jitgen.Properties.NewPaths
import Jitgen.Properties.BaselineIdentity
import Jitgen.Properties.DroppedMutants
import Jitgen.Properties.Conservation
import Jitgen.Properties.ReportedClass
import Jitgen.Properties.TlsEgress
import Jitgen.Properties.IgnoredPaths
import Jitgen.Properties.ArgvIndependence
import Jitgen.Properties.SentinelTransparency
import Jitgen.Properties.WrapperFailure
import Jitgen.Properties.EnvLaw
import Jitgen.Properties.ConfinedWriters
import Jitgen.Properties.TrustedPaths
import Jitgen.Properties.RepairFeedback
import Jitgen.Properties.JunitExport
import Jitgen.Properties.GlobSemantics
import Jitgen.Properties.WhitespaceEvasion
import Jitgen.Properties.BaselineRoundTrip
import Jitgen.Properties.DerivedPaths
import Jitgen.Properties.TargetNames
import Jitgen.Properties.PathOwnership
import Jitgen.Properties.DetectionCoverage
import Jitgen.Properties.RunnableTargets
import Jitgen.Properties.ControlStripping
import Jitgen.Properties.CodeBlocks
import Jitgen.Properties.HumanContainment
import Jitgen.Properties.ContextBudget
import Jitgen.Properties.RepairOutcomes
import Jitgen.Properties.CostBudget
import Jitgen.Properties.Minimality
import Jitgen.Properties.SnapshotAgreement
import Jitgen.Properties.CheckoutBudgets
import Jitgen.Properties.StepTable
import Jitgen.Properties.MarkerLines
import Jitgen.Properties.ProfileTokens
import Jitgen.Properties.TrustedLaunchers
import Jitgen.Properties.RefusalWarnings
import Jitgen.Properties.SarifLocations
import Jitgen.Properties.MarkdownContainment
import Jitgen.Properties.AtomicWrite
import Jitgen.Properties.FailClosed
import Jitgen.Properties.DoctorRows
import Jitgen.Properties.RepoBoundary
import Jitgen.Properties.OverlayNames
import Jitgen.Properties.TargetRanking
import Jitgen.Properties.PlanCoverage
import Jitgen.Properties.ExitCodes
import Jitgen.Properties.TerminalLines
import Jitgen.Properties.StateRoots
