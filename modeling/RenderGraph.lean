import RenderGraph.Declaration.Text
import RenderGraph.Graph
import RenderGraph.Version
import RenderGraph.Proofs.Declared
import RenderGraph.Proofs.Operation
import RenderGraph.Proofs.Session
import RenderGraph.Proofs.Compiled
import RenderGraph.Proofs.DraftLayout
import RenderGraph.Proofs.DraftClock
import RenderGraph.Proofs.DraftOrder
import RenderGraph.Proofs.DraftRecord
import RenderGraph.Proofs.DraftRun
import RenderGraph.Proofs.ClockReach
import RenderGraph.Proofs.DraftFinish
import RenderGraph.Proofs.ScheduleOrder
import RenderGraph.Proofs.QueueOrder
import RenderGraph.Proofs.DraftSyncs
import RenderGraph.Proofs.NeededSyncs
import RenderGraph.Proofs.TransitionOrder
import RenderGraph.Proofs.StateReplay
import RenderGraph.Proofs.TransitionChain
import RenderGraph.Proofs.DraftState
import RenderGraph.Proofs.StateChain
import RenderGraph.Proofs.WorkOrder
import RenderGraph.Proofs.DeviceCalls
import RenderGraph.Proofs.PlayerMade
import RenderGraph.Proofs.PlayerKept
import RenderGraph.Proofs.CompilationSound
import RenderGraph.Proofs.FenceOwners
import RenderGraph.Proofs.FrameTraffic
import RenderGraph.Proofs.FrameRun
import RenderGraph.Proofs.FrameWake
import RenderGraph.Proofs.CrossFrameOrder
import RenderGraph.Proofs.CullingTables
import RenderGraph.Proofs.RevivalClosure
import RenderGraph.Proofs.FrameMeaning
import RenderGraph.Proofs.DeclaredOrder
import RenderGraph.Proofs.ScheduleMade
import RenderGraph.Proofs.CallsMade
import RenderGraph.Proofs.OwedSignals
import RenderGraph.Proofs.DrainFinishes
import RenderGraph.Proofs.ListLife
import RenderGraph.Proofs.FrameTry
import RenderGraph.Proofs.TriedFrames
import RenderGraph.Proofs.ListReuse
import RenderGraph.Proofs.TablesInRange
import RenderGraph.Proofs.CompileResult
import RenderGraph.Proofs.ScheduleGrammar
import RenderGraph.Proofs.UnorderedHazards
import RenderGraph.Proofs.CullingBalance
import RenderGraph.Proofs.CullingFixpoint
import RenderGraph.Proofs.ResidencyPlaced
import RenderGraph.Proofs.FeedingPasses
import RenderGraph.Proofs.ExecuteResult
import RenderGraph.Proofs.ReadsTogether
import RenderGraph.Proofs.TransitionQueues
import RenderGraph.Proofs.ExactOwnership
import RenderGraph.Proofs.StatesOnDevice
import RenderGraph.Proofs.CompileFailure
import RenderGraph.Proofs.FenceDiscipline
import RenderGraph.Proofs.SignalTries
import RenderGraph.Proofs.LostSignals
import RenderGraph.Proofs.StatesRestored
import RenderGraph.Proofs.SurvivalClosure
import RenderGraph.Proofs.ScheduleBasis
import RenderGraph.Proofs.HistoryWriters
import RenderGraph.Proofs.CurrentSchedule
import RenderGraph.Proofs.ImportedWriters
import RenderGraph.Proofs.MatchedRuns
import RenderGraph.Proofs.StrippedPass
import RenderGraph.Proofs.CulledPass
import RenderGraph.Proofs.MergedSchedules
import RenderGraph.Proofs.ExactMaterialization
import RenderGraph.Proofs.DeviceHistory
import RenderGraph.Proofs.Teardown
import RenderGraph.Proofs.ListWindows
import RenderGraph.Proofs.FaithfulReplay
import RenderGraph.Proofs.UnorderedBarriers
import RenderGraph.Proofs.CullingWorklists
