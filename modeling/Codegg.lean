import Codegg.Scheduler.AdmissionConservation
import Codegg.ToolProgram.RuntimeBudget
import Codegg.ToolProgram.Resume
import Codegg.Jobs.CrashRecovery
import Codegg.Projection.NonInterference
import Codegg.Projection.ControllerDelivery
import Codegg.Projection.ReplayAgreement
import Codegg.Documents.Recovery
import Codegg.PromptQueue.Convergence
import Codegg.PromptQueue.Reorder
import Codegg.Documents.ResidentBounds
import Codegg.Documents.Attachment
import Codegg.Documents.Locks
import Codegg.ToolProgram.CheckpointDigest
import Codegg.Jobs.MissedRuns
import Codegg.Projection.ReplayCompleteness
import Codegg.Jobs.ScheduleAgreement
import Codegg.Jobs.Overlap
import Codegg.ToolProgram.AuthorityGrant
import Codegg.Workstream.Dependencies
import Codegg.ToolProgram.StmtCoverage
import Codegg.Permission.TamperEvidence
import Codegg.Permission.Grounds
import Codegg.Permission.PlainCommands
import Codegg.Permission.PathRules
import Codegg.Permission.CommandDisplay
import Codegg.Permission.Approval
import Codegg.WriterPermit.Retries
import Codegg.Git.RoundTrip
import Codegg.Git.NothingDropped
import Codegg.CoreEvents.Completeness
import Codegg.FileTools.ConcurrentEdits
import Codegg.FileTools.OutsideHunks
import Codegg.Permission.TrustedRoots
import Codegg.Checkout.Reservation
import Codegg.ToolProgram.RangeItems
import Codegg.ToolProgram.StringUnits
import Codegg.ToolProgram.RestoreInPlace
import Codegg.ToolProgram.ExprSemantics
import Codegg.Scheduler.Preview
import Codegg.Jobs.FailedOperations
import Codegg.Jobs.Descendants
import Codegg.Documents.Positions
import Codegg.Documents.Sendable
import Codegg.Documents.Retries
import Codegg.ToolProgram.JsonBoundary
import Codegg.Projection.Redelivery
import Codegg.Projection.JobSlots
import Codegg.Context.Packer
import Codegg.Snapshot.DiffHunks
import Codegg.Projection.FieldRedactor
