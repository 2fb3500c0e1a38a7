import LiveQuery.Engine
import LiveQuery.Proofs.Closure.Path
import LiveQuery.Proofs.Closure.Exact
import LiveQuery.Proofs.Closure.Change
import LiveQuery.Proofs.Closure.History
import LiveQuery.Proofs.Closure.Identity
import LiveQuery.Proofs.Closure.Witnessing
import LiveQuery.Proofs.Network.Cell
import LiveQuery.Proofs.Network.Wiring
import LiveQuery.Proofs.Network.Flow
import LiveQuery.Proofs.Network.Priming
import LiveQuery.Proofs.Network.Install
import LiveQuery.Proofs.Batch.Rows
import LiveQuery.Proofs.Network.Meaning
import LiveQuery.Proofs.Network.Operations
import LiveQuery.Proofs.Network.Session
import LiveQuery.Proofs.Network.Events
import LiveQuery.Proofs.Network.Reporting
import LiveQuery.Proofs.Network.Directory
import LiveQuery.Proofs.Network.Rollback
import LiveQuery.Proofs.Network.Termination
import LiveQuery.Proofs.Network.Requests
import LiveQuery.Proofs.Network.Retraction
import LiveQuery.Proofs.Network.Parallel
import LiveQuery.Proofs.Network.Independence
import LiveQuery.Proofs.Network.Carrying
import LiveQuery.Proofs.Network.Staffing
import LiveQuery.Proofs.Network.Telling
import LiveQuery.Proofs.Network.Ranges
import LiveQuery.Proofs.Network.Faults
import LiveQuery.Proofs.Text.Reading
import LiveQuery.Proofs.Pattern.Signature
import LiveQuery.Proofs.Pattern.Closure
import LiveQuery.Proofs.Plan.Constraints
import LiveQuery.Proofs.Plan.Lowering
import LiveQuery.Proofs.Plan.Built
import LiveQuery.Proofs.Plan.Traversal
import LiveQuery.Proofs.Plan.PostOrder
import LiveQuery.Proofs.Plan.Evaluation
import LiveQuery.Proofs.Plan.Members
import LiveQuery.Proofs.Plan.Forefronts
import LiveQuery.Proofs.Plan.Exact
import LiveQuery.Proofs.Plan.Verified
import LiveQuery.Proofs.Plan.Columns
import LiveQuery.Proofs.Plan.Accounting
import LiveQuery.Proofs.Plan.Outcome
import LiveQuery.Proofs.Plan.Tree
import LiveQuery.Proofs.Plan.Outline
import LiveQuery.Proofs.Plan.Seeds
import LiveQuery.Proofs.Plan.Joins
import LiveQuery.Proofs.Plan.Trimming
import LiveQuery.Proofs.Plan.Heath
import LiveQuery.Proofs.Plan.Ranges
import LiveQuery.Proofs.Plan.Order
import LiveQuery.Proofs.Plan.Reading
import LiveQuery.Proofs.Schedule.Buckets
import LiveQuery.Proofs.Schedule.Filing
import LiveQuery.Proofs.Schedule.Coherent
import LiveQuery.Proofs.Schedule.Runs
import LiveQuery.Proofs.Schedule.Evolution
import LiveQuery.Proofs.Schedule.Deeds
import LiveQuery.Proofs.Schedule.Selection
import LiveQuery.Proofs.Schedule.Waiting
import LiveQuery.Proofs.Schedule.States
import LiveQuery.Proofs.Schedule.Isolation
import LiveQuery.Proofs.Schedule.Failures
import LiveQuery.Proofs.Schedule.Repetition
import LiveQuery.Proofs.Schedule.Reordering
import LiveQuery.Proofs.Schedule.Settling
import LiveQuery.Proofs.Engine.Routing
import LiveQuery.Proofs.Engine.Names
import LiveQuery.Proofs.Engine.Applying
import LiveQuery.Proofs.Engine.Watching
import LiveQuery.Proofs.Network.Deciding
import LiveQuery.Proofs.Network.Answering
import LiveQuery.Proofs.Network.Admission
import LiveQuery.Proofs.Network.Responsive
import LiveQuery.Proofs.Network.Monotone
import LiveQuery.Proofs.Network.Sharing
import LiveQuery.Proofs.Network.Sequencing
