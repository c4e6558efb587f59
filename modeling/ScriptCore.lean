import ScriptCore.Binary64
import ScriptCore.Config
import ScriptCore.Decimal.Layout
import ScriptCore.Decimal.Shortest
import ScriptCore.Error
import ScriptCore.Frame.Basic
import ScriptCore.Frame.Chain
import ScriptCore.Frame.Escape
import ScriptCore.Function
import ScriptCore.Interner
import ScriptCore.MemberTable
import ScriptCore.Node
import ScriptCore.Pool
import ScriptCore.Program.Action
import ScriptCore.Program.Action.Member
import ScriptCore.Program.Action.Scope
import ScriptCore.Program.Action.Shape
import ScriptCore.Program.Action.State
import ScriptCore.Program.Action.Table
import ScriptCore.Program.Action.Value
import ScriptCore.Program.Gate
import ScriptCore.Program.Reply
import ScriptCore.Program.Run
import ScriptCore.Program.Session
import ScriptCore.Program.Syntax
import ScriptCore.Proofs.Books
import ScriptCore.Proofs.FrameBooks
import ScriptCore.Proofs.PoolMap
import ScriptCore.Scope.Basic
import ScriptCore.Scope.Durable
import ScriptCore.Scope.Text
import ScriptCore.Shape.Basic
import ScriptCore.Shape.Buckets
import ScriptCore.Shape.Visibility
import ScriptCore.Slot
import ScriptCore.Store
import ScriptCore.Symbol
import ScriptCore.Text.Basic
import ScriptCore.Text.Unprintable
import ScriptCore.Threads
import ScriptCore.Trace
import ScriptCore.Value
import ScriptCore.Value.Text
import ScriptCore.Proofs.Footprint
import ScriptCore.Proofs.Requests
import ScriptCore.Proofs.Releases
import ScriptCore.Proofs.Upkeep
import ScriptCore.Proofs.Operation
import ScriptCore.Proofs.Machine
import ScriptCore.Proofs.Ownership
import ScriptCore.Proofs.Gate
import ScriptCore.Proofs.StaleHandles
import ScriptCore.Proofs.Primes
import ScriptCore.Proofs.Probe
import ScriptCore.Proofs.ShapeOrder
import ScriptCore.Proofs.Threshold
import ScriptCore.Proofs.Lineage
import ScriptCore.Proofs.Listing
import ScriptCore.Proofs.Escape
import ScriptCore.Proofs.CallNames
import ScriptCore.Proofs.Nesting
import ScriptCore.Proofs.Numbering
import ScriptCore.Proofs.OwnMembers
import ScriptCore.Proofs.Memo
import ScriptCore.Proofs.Snapshots
import ScriptCore.Proofs.TableSlots
import ScriptCore.Proofs.MemberMaps
import ScriptCore.Proofs.Blocks
import ScriptCore.Proofs.Elsewhere
import ScriptCore.Proofs.BlockMaps
import ScriptCore.Proofs.Walks
import ScriptCore.Proofs.Globals
import ScriptCore.Proofs.ListedNames
import ScriptCore.Proofs.Constants
import ScriptCore.Proofs.Room
import ScriptCore.Proofs.Beside
import ScriptCore.Proofs.Bodies
import ScriptCore.Proofs.Cells
import ScriptCore.Proofs.Order
import ScriptCore.Proofs.Mirrors
import ScriptCore.Proofs.Likeness
import ScriptCore.Proofs.Following
import ScriptCore.Proofs.CallStorage
import ScriptCore.Proofs.Interning
import ScriptCore.Proofs.Continuity
import ScriptCore.Proofs.Resolution
import ScriptCore.Proofs.Mixins
import ScriptCore.Proofs.Registrations
import ScriptCore.Proofs.Processes
import ScriptCore.Proofs.Definitions
import ScriptCore.Proofs.Unwinding
import ScriptCore.Proofs.Records
import ScriptCore.Proofs.CallEffect
import ScriptCore.Proofs.Storage
import ScriptCore.Proofs.Writes
import ScriptCore.Proofs.MemberEffects
import ScriptCore.Proofs.Levels
import ScriptCore.Proofs.TraceRecords
import ScriptCore.Proofs.FirstSymbol
import ScriptCore.Proofs.ReleaseOrder
import ScriptCore.Proofs.Actions
import ScriptCore.Proofs.Recursion
import ScriptCore.Proofs.Creation
import ScriptCore.Proofs.Schedule
import ScriptCore.Proofs.ProbeLengths
import ScriptCore.Proofs.Cursors
import ScriptCore.Proofs.OwnListing
import ScriptCore.Proofs.PeakDemand
import ScriptCore.Proofs.ProbeCycle
import ScriptCore.Proofs.TableGrowth
