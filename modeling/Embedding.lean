import Embedding.Answer
import Embedding.Binary64.Basic
import Embedding.Binary64.Rounding
import Embedding.Binary64.Shortest
import Embedding.Cell.Flags
import Embedding.Cell.Kind
import Embedding.Cell.Scalar
import Embedding.Console.Command
import Embedding.Console.Raw
import Embedding.Console.Run
import Embedding.Console.State
import Embedding.Console.Step
import Embedding.Console.View
import Embedding.Dict
import Embedding.Engine
import Embedding.Fault
import Embedding.Frame
import Embedding.Heap.Basic
import Embedding.Heap.Container
import Embedding.Heap.Loading
import Embedding.Heap.Pending
import Embedding.Heap.Scalar
import Embedding.Heap.Symbol
import Embedding.Host.Boundary
import Embedding.Host.Call
import Embedding.Host.Config
import Embedding.Host.Container
import Embedding.Host.Crossing
import Embedding.Host.Equality
import Embedding.Host.Error
import Embedding.Host.Extraction
import Embedding.Host.Global
import Embedding.Host.Handle
import Embedding.Host.Lifecycle
import Embedding.Host.Path
import Embedding.Host.Session
import Embedding.Host.Value
import Embedding.Host.View
import Embedding.Host.World
import Embedding.Interpreter
import Embedding.Name
import Embedding.Native
import Embedding.Package
import Embedding.Proofs.Apart
import Embedding.Proofs.ArrayLists
import Embedding.Proofs.Assignments
import Embedding.Proofs.BrokenPackages
import Embedding.Proofs.CallResults
import Embedding.Proofs.Coherence
import Embedding.Proofs.Console.Accounts
import Embedding.Proofs.Console.Commands
import Embedding.Proofs.Console.Runs
import Embedding.Proofs.Console.Steps
import Embedding.Proofs.Counts
import Embedding.Proofs.CursorEnds
import Embedding.Proofs.Ends
import Embedding.Proofs.Equality
import Embedding.Proofs.FailedCalls
import Embedding.Proofs.FailedConversions
import Embedding.Proofs.FailedStarts
import Embedding.Proofs.FreedCells
import Embedding.Proofs.Globals
import Embedding.Proofs.Handles
import Embedding.Proofs.HashMaps
import Embedding.Proofs.HashWalks
import Embedding.Proofs.Heap.Bonds
import Embedding.Proofs.Heap.Calls
import Embedding.Proofs.Heap.Can
import Embedding.Proofs.Heap.Carried
import Embedding.Proofs.Heap.Consistent
import Embedding.Proofs.Heap.Containers
import Embedding.Proofs.Heap.Contents
import Embedding.Proofs.Heap.Drafts
import Embedding.Proofs.Heap.Drop
import Embedding.Proofs.Heap.Errors
import Embedding.Proofs.Heap.Exact
import Embedding.Proofs.Heap.Frames
import Embedding.Proofs.Heap.Gone
import Embedding.Proofs.Heap.Included
import Embedding.Proofs.Heap.LastErrors
import Embedding.Proofs.Heap.Lent
import Embedding.Proofs.Heap.Lists
import Embedding.Proofs.Heap.Loads
import Embedding.Proofs.Heap.Maps
import Embedding.Proofs.Heap.Methods
import Embedding.Proofs.Heap.Packages
import Embedding.Proofs.Heap.Planting
import Embedding.Proofs.Heap.Quiet
import Embedding.Proofs.Heap.References
import Embedding.Proofs.Heap.Requests
import Embedding.Proofs.Heap.Results
import Embedding.Proofs.Heap.Scalars
import Embedding.Proofs.Heap.Sound
import Embedding.Proofs.Heap.Stakes
import Embedding.Proofs.Heap.Stocked
import Embedding.Proofs.Heap.Symbols
import Embedding.Proofs.Heap.Trees
import Embedding.Proofs.Heap.Values
import Embedding.Proofs.Heap.Variables
import Embedding.Proofs.Heap.Visits
import Embedding.Proofs.Heap.Walks
import Embedding.Proofs.Host.Accounts
import Embedding.Proofs.Host.Arrivals
import Embedding.Proofs.Host.Assigning
import Embedding.Proofs.Host.Balance
import Embedding.Proofs.Host.Bystanders
import Embedding.Proofs.Host.Calls
import Embedding.Proofs.Host.Cells
import Embedding.Proofs.Host.Containers
import Embedding.Proofs.Host.Crossing
import Embedding.Proofs.Host.Displays
import Embedding.Proofs.Host.Drafting
import Embedding.Proofs.Host.Driven
import Embedding.Proofs.Host.Extraction
import Embedding.Proofs.Host.Faces
import Embedding.Proofs.Host.Failures
import Embedding.Proofs.Host.Filling
import Embedding.Proofs.Host.History
import Embedding.Proofs.Host.Keeping
import Embedding.Proofs.Host.Lists
import Embedding.Proofs.Host.Maps
import Embedding.Proofs.Host.Methods
import Embedding.Proofs.Host.Onward
import Embedding.Proofs.Host.Order
import Embedding.Proofs.Host.Planting
import Embedding.Proofs.Host.Presenting
import Embedding.Proofs.Host.Reached
import Embedding.Proofs.Host.Reading
import Embedding.Proofs.Host.References
import Embedding.Proofs.Host.Refusals
import Embedding.Proofs.Host.Seeing
import Embedding.Proofs.Host.Sessions
import Embedding.Proofs.Host.Starts
import Embedding.Proofs.Host.Steady
import Embedding.Proofs.Host.Steps
import Embedding.Proofs.Host.Twins
import Embedding.Proofs.Host.Values
import Embedding.Proofs.Host.Watch
import Embedding.Proofs.Host.Worlds
import Embedding.Proofs.IncludePaths
import Embedding.Proofs.IntegerExtraction
import Embedding.Proofs.Lifecycle
import Embedding.Proofs.Lineages
import Embedding.Proofs.LongestNumerals
import Embedding.Proofs.MethodLookups
import Embedding.Proofs.NestedCalls
import Embedding.Proofs.Numerals.Grammar
import Embedding.Proofs.Numerals.Rounding
import Embedding.Proofs.Numerals.Scan
import Embedding.Proofs.NumericUse
import Embedding.Proofs.PendingErrors
import Embedding.Proofs.Receivers
import Embedding.Proofs.Releases
import Embedding.Proofs.RoundTrip
import Embedding.Proofs.ScalarFlags
import Embedding.Proofs.ShutDown
import Embedding.Proofs.SingleInstance
import Embedding.Proofs.Spellings
import Embedding.Proofs.StoredViews
import Embedding.Proofs.Tidy
import Embedding.Proofs.TypedExtraction
import Embedding.Proofs.UnseenValues
import Embedding.Proofs.ViewCrossings
import Embedding.Proofs.ViewEquality
import Embedding.Proofs.Views
import Embedding.Request
import Embedding.Routine
import Embedding.Setup
import Embedding.Text.Blank
import Embedding.Text.Digits
import Embedding.Text.Escaped
import Embedding.Text.Numeral
import Embedding.Text.Positional
import Embedding.Text.Quoted
import Embedding.Text.Utf8
import Embedding.Toml.Document
import Embedding.Toml.Plain
import Embedding.Toml.Table
import Embedding.Toml.Text
import Embedding.Universal
