import Anywise.Lib.Dict
import Anywise.Lib.Closure
import Anywise.Lib.Chain
import Anywise.Lib.Relinking
import Anywise.Lib.Run
import Anywise.Lib.Onion
import Anywise.Lib.Grouping
import Anywise.Lib.Objects
import Anywise.Lib.Tasks
import Anywise.Lib.Channel
import Anywise.Lib.Batch
import Anywise.Lib.Firsts
import Anywise.Types
import Anywise.Visitor
import Anywise.Gathering
import Anywise.Registry
import Anywise.Manager
import Anywise.IncludeOrder
import Anywise.Inspection
import Anywise.Extraction
import Anywise.World
import Anywise.Journal
import Anywise.System
import Anywise.Calls
import Anywise.Soundness
import Anywise.Linking
import Anywise.Completion
import Anywise.Registration
import Anywise.Atomicity
import Anywise.Batches
import Anywise.GuardTargets
import Anywise.Methods
import Anywise.Overlap
import Anywise.Dispatch
import Anywise.Resolution
import Anywise.Delivery
import Anywise.Skipping
import Anywise.Scopes
import Anywise.Coverage
import Anywise.Numbering
import Anywise.Layers
import Anywise.Nesting
import Anywise.Crossing
import Anywise.Representation
import Anywise.Reconfiguration
import Anywise.Listeners
import Anywise.Sharing
import Anywise.Publishing
import Anywise.GlobalGuards
import Anywise.Strategies
import Anywise.Isolation
import Anywise.Failures
import Anywise.Sink
import Anywise.Messages.Model
import Anywise.Messages.Entity
import Anywise.Messages.Cache
import Anywise.Messages.MsgSpec
import Anywise.Messages.Table
import Anywise.Messages.EventStore
import Anywise.Messages.Uniqueness
import Anywise.Messages.Streams
import Anywise.Messages.StructTable
import Anywise.Demo.Todo
import Anywise.Demo.Writes
import Anywise.Demo.Reading
import Anywise.Demo.Listing
