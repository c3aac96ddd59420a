import PubSub.Allocator
import PubSub.Answer
import PubSub.Behaviour
import PubSub.Bus
import PubSub.Command
import PubSub.Config
import PubSub.Config.Document
import PubSub.Config.Variables
import PubSub.Crash
import PubSub.Declaration
import PubSub.Delivery
import PubSub.Descriptor
import PubSub.Event
import PubSub.Failure
import PubSub.Gate
import PubSub.Handle
import PubSub.Hierarchy
import PubSub.Invocation
import PubSub.Json.Flaw
import PubSub.Json.Number
import PubSub.Json.Skip
import PubSub.Json.Text
import PubSub.Key
import PubSub.Matcher
import PubSub.Name
import PubSub.Notice
import PubSub.Program
import PubSub.Proofs.Buses
import PubSub.Proofs.Config.Complaints
import PubSub.Proofs.Config.Loading
import PubSub.Proofs.Config.Members
import PubSub.Proofs.Config.RoundTrip
import PubSub.Proofs.Config.Spelling
import PubSub.Proofs.Config.Values
import PubSub.Proofs.Exceptions
import PubSub.Proofs.Json.Number
import PubSub.Proofs.Json.Text
import PubSub.Proofs.Json.Values
import PubSub.Proofs.Logging.Behaviours
import PubSub.Proofs.Logging.Buses
import PubSub.Proofs.Logging.Commands
import PubSub.Proofs.Logging.Runs
import PubSub.Proofs.Logging.Sessions
import PubSub.Proofs.Logging.Steps
import PubSub.Proofs.Logging.Switch
import PubSub.Proofs.Lookup
import PubSub.Proofs.Operations
import PubSub.Proofs.Outcomes
import PubSub.Proofs.Registry.Bulk
import PubSub.Proofs.Registry.Churn
import PubSub.Proofs.Registry.Cuts
import PubSub.Proofs.Registry.Removal
import PubSub.Proofs.Registry.Requests
import PubSub.Proofs.Registry.Rows
import PubSub.Proofs.Related
import PubSub.Proofs.Resolution.Closure
import PubSub.Proofs.Resolution.Distances
import PubSub.Proofs.Resolution.Drafting
import PubSub.Proofs.Resolution.Entries
import PubSub.Proofs.Resolution.Listening
import PubSub.Proofs.Resolution.Order
import PubSub.Proofs.Resolution.Paths
import PubSub.Proofs.Resolution.Remembering
import PubSub.Proofs.Resolution.Reordering
import PubSub.Proofs.Resolution.Sights
import PubSub.Proofs.Resolution.Unfolding
import PubSub.Proofs.Resolution.Views
import PubSub.Proofs.Runs.Ancestors
import PubSub.Proofs.Runs.Basic
import PubSub.Proofs.Runs.Cascades
import PubSub.Proofs.Runs.Completion
import PubSub.Proofs.Runs.Endings
import PubSub.Proofs.Runs.Failures
import PubSub.Proofs.Runs.Generations
import PubSub.Proofs.Runs.Lineage
import PubSub.Proofs.Runs.Loops
import PubSub.Proofs.Runs.Overlaps
import PubSub.Proofs.Runs.Relays
import PubSub.Proofs.Runs.Serialization
import PubSub.Proofs.Runs.Starting
import PubSub.Proofs.Runs.Strides
import PubSub.Proofs.Runs.Tenures
import PubSub.Proofs.Session.Accounting
import PubSub.Proofs.Session.Carriers
import PubSub.Proofs.Session.Closing
import PubSub.Proofs.Session.Depth
import PubSub.Proofs.Session.Effects
import PubSub.Proofs.Session.Enrolment
import PubSub.Proofs.Session.ExactDelivery
import PubSub.Proofs.Session.Fates
import PubSub.Proofs.Session.Histories
import PubSub.Proofs.Session.Keeping
import PubSub.Proofs.Session.Moves
import PubSub.Proofs.Session.Owners
import PubSub.Proofs.Session.Proper
import PubSub.Proofs.Session.Provenance
import PubSub.Proofs.Session.Receipts
import PubSub.Proofs.Session.Refusals
import PubSub.Proofs.Session.Reported
import PubSub.Proofs.Session.Roster
import PubSub.Proofs.Session.Running
import PubSub.Proofs.Session.Schedules
import PubSub.Proofs.Session.Scheduling
import PubSub.Proofs.Session.Settling
import PubSub.Proofs.Session.Slots
import PubSub.Proofs.Session.Steps
import PubSub.Proofs.Session.Targets
import PubSub.Proofs.Session.Transitions
import PubSub.Proofs.Session.Turns
import PubSub.Proofs.Sources
import PubSub.Proofs.Tables
import PubSub.Proofs.Text.Keys
import PubSub.Proofs.Text.Words
import PubSub.Proofs.Unheard
import PubSub.Proofs.Waiting.Jams
import PubSub.Proofs.Waiting.Own
import PubSub.Publication
import PubSub.Registry
import PubSub.Script
import PubSub.Script.Listener
import PubSub.Session.Ending
import PubSub.Session.Perform
import PubSub.Session.Publishing
import PubSub.Session.State
import PubSub.Session.Step
import PubSub.Session.Subscribing
import PubSub.Table
import PubSub.Text.Blank
import PubSub.Text.Quoted
import PubSub.Text.Shape
import PubSub.Text.Word
import PubSub.View
import PubSub.Workers
