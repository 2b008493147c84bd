import GoalWatch.Main
import GoalWatch.Session.Rehearsal
import GoalWatch.Proofs.Runner.Act
import GoalWatch.Proofs.Runner.Consistent
import GoalWatch.Proofs.Runner.Ledger
import GoalWatch.Proofs.Session.Step
import GoalWatch.Proofs.Session.Chain
import GoalWatch.Proofs.Session.Run
import GoalWatch.Proofs.Session.Lifecycle
import GoalWatch.Proofs.Session.Backing
import GoalWatch.Proofs.Runner.Tending
import GoalWatch.Proofs.Session.Calm.Moves
import GoalWatch.Proofs.Session.Stranded
import GoalWatch.Proofs.Tree.Shape
import GoalWatch.Proofs.Session.Pass
import GoalWatch.Proofs.Session.Trees
import GoalWatch.Proofs.Runner.Station
import GoalWatch.Proofs.Session.Station
import GoalWatch.Proofs.Runner.Latest
import GoalWatch.Proofs.Session.Latest
import GoalWatch.Proofs.Runner.Exact
import GoalWatch.Proofs.Session.Quiescence
import GoalWatch.Proofs.Session.Outdated
import GoalWatch.Proofs.Runner.Arrival
import GoalWatch.Proofs.Runner.Credit
import GoalWatch.Proofs.Session.Reactivation
import GoalWatch.Proofs.Session.Calm.Applying
import GoalWatch.Proofs.CommandLine.RunReport
import GoalWatch.Proofs.Session.Registry.Desk
import GoalWatch.Proofs.Session.Registry.Calls
import GoalWatch.Proofs.Session.Registry.Selection
import GoalWatch.Proofs.Session.Registry.Race
import GoalWatch.Proofs.Session.Registry.Invariant
import GoalWatch.Proofs.Solving.Reasons
import GoalWatch.Proofs.Runner.Generation
import GoalWatch.Proofs.Session.Flow
import GoalWatch.Proofs.Session.Automode
import GoalWatch.Proofs.Session.Coherence
import GoalWatch.Proofs.Session.ReportScope
import GoalWatch.Proofs.Session.Course
import GoalWatch.Proofs.Session.Delivery
import GoalWatch.Proofs.Session.Closedness
import GoalWatch.Proofs.Session.Registry.Observers
import GoalWatch.Proofs.Session.Subscriptions
import GoalWatch.Proofs.Json.RoundTrip
import GoalWatch.Proofs.Text.Encoding
import GoalWatch.Proofs.Runner.Ended
import GoalWatch.Proofs.Settings.Persistence
import GoalWatch.Proofs.Session.Lasting
import GoalWatch.Proofs.Session.Pauses
import GoalWatch.Proofs.Session.Terminal
import GoalWatch.Proofs.Session.Release
import GoalWatch.Proofs.Settings.Provider
import GoalWatch.Proofs.Tree.Undoing
import GoalWatch.Proofs.Tree.Pruning
import GoalWatch.Proofs.Session.Applied
import GoalWatch.Proofs.Session.Undisturbed
import GoalWatch.Proofs.Session.AnyOrder
import GoalWatch.Proofs.Runner.Picking
import GoalWatch.Proofs.Session.Completion
import GoalWatch.Proofs.Script.Reading
import GoalWatch.Proofs.Script.Acceptance
import GoalWatch.Proofs.Script.Meaning
import GoalWatch.Proofs.Script.Containment
import GoalWatch.Proofs.Solving.Race
import GoalWatch.Proofs.Solving.Slots
import GoalWatch.Proofs.Solving.Outcomes
