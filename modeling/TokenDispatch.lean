import TokenDispatch.Description
import TokenDispatch.Listing
import TokenDispatch.Proofs.GeneratedCode
import TokenDispatch.Recorder
import TokenDispatch.Proofs.RoutineLayout
import TokenDispatch.Proofs.EntryLayout
import TokenDispatch.Proofs.UnitLayout
import TokenDispatch.Proofs.Effects
import TokenDispatch.Proofs.Runs
import TokenDispatch.Proofs.Evaluation
import TokenDispatch.Proofs.MethodRun
import TokenDispatch.Proofs.EntryRun
import TokenDispatch.Proofs.Descriptor
import TokenDispatch.Proofs.Resolution
import TokenDispatch.Proofs.Dispatch
import TokenDispatch.Proofs.Endings
import TokenDispatch.Proofs.Refinement
import TokenDispatch.Proofs.Operands
import TokenDispatch.Proofs.Defects
import TokenDispatch.Proofs.HostCalls
import TokenDispatch.Proofs.StackDepth
import TokenDispatch.Proofs.StackSafety
import TokenDispatch.Proofs.StackOrigins
import TokenDispatch.Proofs.StackTracking
import TokenDispatch.Proofs.StackRuns
import TokenDispatch.Proofs.Results
import TokenDispatch.Proofs.Linking
import TokenDispatch.Proofs.StackUse
import TokenDispatch.Proofs.Acceptance
import TokenDispatch.Proofs.ControlFlow
import TokenDispatch.Proofs.Loading
import TokenDispatch.Proofs.GeneratedLoading
import TokenDispatch.Proofs.UnitContents
import TokenDispatch.Proofs.FailedCalls
import TokenDispatch.Proofs.WellFormed
import TokenDispatch.Proofs.Independence
import TokenDispatch.Proofs.PairedRuns
import TokenDispatch.Proofs.Observation
import TokenDispatch.Proofs.Refusal
import TokenDispatch.Proofs.RoutineGroups
import TokenDispatch.Proofs.Protocol
import TokenDispatch.Proofs.FrameSizes
import TokenDispatch.Proofs.JumpTable
import TokenDispatch.Proofs.Drafts
import TokenDispatch.Proofs.RoutedSwitches
import TokenDispatch.Proofs.RoutineLimits
import TokenDispatch.Proofs.SubtypeOrder
import TokenDispatch.Proofs.TokenPositions
import TokenDispatch.Proofs.Renumbering
import TokenDispatch.Proofs.UsedAssembler
import TokenDispatch.Proofs.InterfaceSearch
import TokenDispatch.Proofs.SuperclassChains
import TokenDispatch.Proofs.ArgumentChecks
import TokenDispatch.Proofs.Requests
import TokenDispatch.Proofs.Overriding
import TokenDispatch.Proofs.Obstacles
import TokenDispatch.Proofs.AnsweredCalls
import TokenDispatch.Proofs.Upcasts
import TokenDispatch.Proofs.IntegerUnboxing
import TokenDispatch.Proofs.EndingSearches
