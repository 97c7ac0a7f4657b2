import DynamicObjects.HandleSet
import DynamicObjects.NameTable
import DynamicObjects.Value.Text
import DynamicObjects.Glob.Coverage
import DynamicObjects.Failure
import DynamicObjects.Settings
import DynamicObjects.Script.Expression
import DynamicObjects.Hierarchy.Links
import DynamicObjects.Hierarchy.Precedence
import DynamicObjects.World
import DynamicObjects.Interception.Registration
import DynamicObjects.Interception.FilterOrder
import DynamicObjects.Method.Arguments
import DynamicObjects.Method.Template
import DynamicObjects.Definition.Registry
import DynamicObjects.Invocation.Search
import DynamicObjects.Invocation.Assertion
import DynamicObjects.Invocation.Unknown
import DynamicObjects.Invocation.Next
import DynamicObjects.Invocation.Call
import DynamicObjects.Lifecycle.Creation
import DynamicObjects.Lifecycle.Reclassing
import DynamicObjects.Script.Session
import DynamicObjects.Proofs.Runs.Links
import DynamicObjects.Proofs.Interception.Computation
import DynamicObjects.Proofs.Interception.Upkeep
import DynamicObjects.Proofs.Runs.Coherence
import DynamicObjects.Proofs.Interception.Tracking
import DynamicObjects.Proofs.Runs.OpenCalls
import DynamicObjects.Proofs.Runs.Succession
import DynamicObjects.Proofs.Interception.Lineup
import DynamicObjects.Proofs.Runs.Handover
import DynamicObjects.Proofs.Runs.Refusals
import DynamicObjects.Proofs.Runs.Precedence
import DynamicObjects.Proofs.Runs.Finds
import DynamicObjects.Proofs.Runs.Visibility
import DynamicObjects.Proofs.Runs.Chains
import DynamicObjects.Proofs.Runs.Recomputation
import DynamicObjects.Proofs.Runs.Modifiers
import DynamicObjects.Proofs.Runs.Sorting
import DynamicObjects.Proofs.Runs.Registry
import DynamicObjects.Proofs.Runs.Reclamation
import DynamicObjects.Proofs.Runs.Farewells
import DynamicObjects.Proofs.Runs.Depth
import DynamicObjects.Proofs.Runs.Holding
import DynamicObjects.Proofs.Runs.Level
import DynamicObjects.Proofs.Runs.Composition
import DynamicObjects.Proofs.Runs.Evaluations
import DynamicObjects.Proofs.Runs.Openings
import DynamicObjects.Proofs.Runs.Privacy
import DynamicObjects.Proofs.Runs.Marks
import DynamicObjects.Proofs.Runs.Callers
import DynamicObjects.Proofs.Runs.Stacks
import DynamicObjects.Proofs.Runs.SubMethods
import DynamicObjects.Proofs.Runs.Guards
import DynamicObjects.Proofs.Structure.Clearance
import DynamicObjects.Proofs.Runs.Traces
import DynamicObjects.Proofs.Runs.Inheritance
import DynamicObjects.Proofs.Runs.Isolation
import DynamicObjects.Proofs.Runs.Withdrawal
import DynamicObjects.Proofs.Runs.Filters
import DynamicObjects.Proofs.Runs.Aliases
import DynamicObjects.Proofs.Templates.Accounts
import DynamicObjects.Proofs.Templates.Placement
import DynamicObjects.Proofs.Runs.Implementing
import DynamicObjects.Proofs.Runs.Unanswered
import DynamicObjects.Proofs.Arguments.Writing
import DynamicObjects.Proofs.Arguments.Validation
import DynamicObjects.Proofs.Runs.Results
import DynamicObjects.Proofs.Runs.Listing
import DynamicObjects.Proofs.Runs.Positions
import DynamicObjects.Proofs.Runs.FilterFrames
import DynamicObjects.Proofs.Runs.Containers
import DynamicObjects.Proofs.Hierarchy.Closures
import DynamicObjects.Proofs.Histories
import DynamicObjects.Proofs.Integers
import DynamicObjects.Proofs.Runs.Advances
import DynamicObjects.Proofs.Runs.Transparency
