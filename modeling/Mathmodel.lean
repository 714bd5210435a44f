import Mathmodel.Library.Program
import Mathmodel.Json.Basic
import Mathmodel.Json.Text
import Mathmodel.Backend.Contracts
import Mathmodel.Backend.Store
import Mathmodel.Backend.Change
import Mathmodel.Backend.World
import Mathmodel.Backend.Connection
import Mathmodel.Backend.Messages
import Mathmodel.Backend.Jobs
import Mathmodel.Backend.Service
import Mathmodel.Library.Transition
import Mathmodel.Backend.Transitions
import Mathmodel.Backend.Durable
import Mathmodel.Backend.Database
import Mathmodel.Backend.Effects
import Mathmodel.Backend.Sound
import Mathmodel.Backend.Wiring
import Mathmodel.Backend.Waiting
import Mathmodel.Backend.Keeping
import Mathmodel.Backend.Course
import Mathmodel.Backend.Frames
import Mathmodel.Backend.Continuations
import Mathmodel.Backend.Commands
import Mathmodel.Backend.Steps
import Mathmodel.Backend.Ledger
import Mathmodel.Backend.Script
import Mathmodel.Backend.Slot
import Mathmodel.Backend.History
import Mathmodel.Backend.Views
import Mathmodel.Backend.Dispatch
import Mathmodel.Backend.Approvals
import Mathmodel.Backend.Attendance
import Mathmodel.Backend.Standing
import Mathmodel.Library.Dialogue
import Mathmodel.Workflow.Value
import Mathmodel.Workflow.State
import Mathmodel.Workflow.Disk
import Mathmodel.Workflow.Files
import Mathmodel.Workflow.Publication
import Mathmodel.Workflow.Commands
import Mathmodel.Workflow.Session
import Mathmodel.Workflow.Quiet
import Mathmodel.Workflow.Reading
import Mathmodel.Workflow.Findings
import Mathmodel.Workflow.Deeds
import Mathmodel.Workflow.Conduct
import Mathmodel.Workflow.Execution
import Mathmodel.Workflow.Governed
import Mathmodel.Workflow.Scenario
import Mathmodel.Workflow.Order
import Mathmodel.Workflow.Ledger
import Mathmodel.Workflow.Rework
import Mathmodel.Library.Outcome
import Mathmodel.Workflow.Archive
import Mathmodel.Workflow.Calm
import Mathmodel.Workflow.Integrity
import Mathmodel.Backend.Containment
import Mathmodel.Backend.Adapter
import Mathmodel.Backend.Correlation
import Mathmodel.Workflow.Completion
import Mathmodel.Workflow.Documents
import Mathmodel.Workflow.Verification
import Mathmodel.Workflow.Gates
import Mathmodel.Workflow.Paper
import Mathmodel.Workflow.Failure
import Mathmodel.Workflow.Smooth
import Mathmodel.Workflow.Blobs
import Mathmodel.Workflow.Delivery
import Mathmodel.Workflow.Creation
import Mathmodel.Backend.Paging
import Mathmodel.Library.Separated
import Mathmodel.Library.Tabled
import Mathmodel.Json.Canonical
import Mathmodel.Library.Commuting
import Mathmodel.Backend.Receiving
import Mathmodel.Backend.Refusal
import Mathmodel.Library.Pattern
import Mathmodel.Tools.RegExp
import Mathmodel.Tools.DocFacts
import Mathmodel.Library.Rounds
import Mathmodel.Tools.Settling
import Mathmodel.Tools.Kit
import Mathmodel.Tools.Markdown
import Mathmodel.Tools.Citations
import Mathmodel.Json.Indented
import Mathmodel.Tools.Globs
import Mathmodel.Tools.Fences
import Mathmodel.Tools.Tree
import Mathmodel.Tools.Writing
import Mathmodel.Json.WellFormed
import Mathmodel.Tools.Enumeration
import Mathmodel.Tools.Recorded
import Mathmodel.Tools.Overwriting
import Mathmodel.Tools.RoundTrip
import Mathmodel.Workflow.Crash
import Mathmodel.Workflow.Reported
import Mathmodel.Backend.Receipts
import Mathmodel.Backend.Attempts
import Mathmodel.Backend.Lifecycle
import Mathmodel.Backend.Recovery
import Mathmodel.Backend.Api
import Mathmodel.Backend.Transactions
import Mathmodel.Backend.Projection
import Mathmodel.Library.Locking
import Mathmodel.Workflow.Concurrent
import Mathmodel.Backend.Underway
import Mathmodel.Backend.Cancellation
import Mathmodel.Backend.Quiescence
