import AdminConsole.Command.Arguments
import AdminConsole.Command.Run
import AdminConsole.Console
import AdminConsole.Entries
import AdminConsole.Entry.Base64
import AdminConsole.Entry.Codec
import AdminConsole.Entry.Percent
import AdminConsole.Fault
import AdminConsole.Http.Address
import AdminConsole.Http.Exchange
import AdminConsole.Http.Header
import AdminConsole.Http.Path
import AdminConsole.Json.Reader
import AdminConsole.Json.Value
import AdminConsole.Json.Whole
import AdminConsole.Json.Writer
import AdminConsole.Main
import AdminConsole.Number.Basic
import AdminConsole.Number.Binary64
import AdminConsole.Number.Shortest
import AdminConsole.Proofs.Console.Agreement
import AdminConsole.Proofs.Console.Login
import AdminConsole.Proofs.Console.Logout
import AdminConsole.Proofs.Console.Resuming
import AdminConsole.Proofs.Console.Silence
import AdminConsole.Proofs.Console.Steps
import AdminConsole.Proofs.Entry.Halves
import AdminConsole.Proofs.Entry.Outcome
import AdminConsole.Proofs.Entry.RoundTrip
import AdminConsole.Proofs.Entry.Wrapping
import AdminConsole.Proofs.Http.Authorization
import AdminConsole.Proofs.Http.Bodies
import AdminConsole.Proofs.Json.Fuel
import AdminConsole.Proofs.Json.Numerals
import AdminConsole.Proofs.Json.Places
import AdminConsole.Proofs.Json.Readable
import AdminConsole.Proofs.Json.RoundTrip
import AdminConsole.Proofs.Json.Strings
import AdminConsole.Proofs.Json.Suffixes
import AdminConsole.Proofs.Number.Doubling
import AdminConsole.Proofs.Number.Exact
import AdminConsole.Proofs.Number.Order
import AdminConsole.Proofs.Number.Rounding
import AdminConsole.Proofs.Resolve.Books
import AdminConsole.Proofs.Resolve.Cancelling
import AdminConsole.Proofs.Resolve.Completion
import AdminConsole.Proofs.Resolve.Courses
import AdminConsole.Proofs.Resolve.Expansion
import AdminConsole.Proofs.Resolve.Extent
import AdminConsole.Proofs.Resolve.InSequence
import AdminConsole.Proofs.Resolve.Instants
import AdminConsole.Proofs.Resolve.Interleaving
import AdminConsole.Proofs.Resolve.LevelByLevel
import AdminConsole.Proofs.Resolve.Moments
import AdminConsole.Proofs.Resolve.Pauses
import AdminConsole.Proofs.Resolve.Queries
import AdminConsole.Proofs.Resolve.Repetition
import AdminConsole.Proofs.Resolve.Retries
import AdminConsole.Proofs.Resolve.Slots
import AdminConsole.Proofs.Resolve.Spacing
import AdminConsole.Proofs.Resolve.Stopping
import AdminConsole.Proofs.Resolve.Streams
import AdminConsole.Proofs.Resolve.Tally
import AdminConsole.Proofs.Resolve.Traces
import AdminConsole.Proofs.Resolve.Turns
import AdminConsole.Proofs.Resolve.Wire
import AdminConsole.Proofs.Resource.Classification
import AdminConsole.Proofs.Resource.Parameters
import AdminConsole.Proofs.Session.Agreement
import AdminConsole.Proofs.Session.Checking
import AdminConsole.Proofs.Session.Ending
import AdminConsole.Proofs.Session.Recovery
import AdminConsole.Proofs.Session.Stored
import AdminConsole.Proofs.Session.Window
import AdminConsole.Proofs.Settings.Acceptance
import AdminConsole.Proofs.Settings.Reading
import AdminConsole.Proofs.Store.Table
import AdminConsole.Proofs.Text.Codes
import AdminConsole.Proofs.Tree.Ancestry
import AdminConsole.Proofs.Tree.Colour
import AdminConsole.Proofs.Tree.Duplicates
import AdminConsole.Proofs.Tree.Escapes
import AdminConsole.Proofs.Tree.Exposed
import AdminConsole.Proofs.Tree.Folding
import AdminConsole.Proofs.Tree.Forest
import AdminConsole.Proofs.Tree.Interrupted
import AdminConsole.Proofs.Tree.Joined
import AdminConsole.Proofs.Tree.Listed
import AdminConsole.Proofs.Tree.Nesting
import AdminConsole.Proofs.Tree.Preorder
import AdminConsole.Proofs.Tree.Reach
import AdminConsole.Proofs.Tree.Records
import AdminConsole.Proofs.Tree.Rows
import AdminConsole.Proofs.Tree.Visible
import AdminConsole.Resolve.Levels
import AdminConsole.Resolve.Load
import AdminConsole.Resolve.Progress
import AdminConsole.Resolve.Schedule
import AdminConsole.Resolve.Script
import AdminConsole.Resolve.Sequence
import AdminConsole.Resolve.Source
import AdminConsole.Resource.Endpoint
import AdminConsole.Resource.Query
import AdminConsole.Resource.Records
import AdminConsole.Session.Authentication
import AdminConsole.Session.Basic
import AdminConsole.Session.Credentials
import AdminConsole.Settings.Basic
import AdminConsole.Settings.Fields
import AdminConsole.Store
import AdminConsole.Text.Blank
import AdminConsole.Text.Digit
import AdminConsole.Text.Hex
import AdminConsole.Text.Lower
import AdminConsole.Text.Printable
import AdminConsole.Text.Quoted
import AdminConsole.Text.Utf8
import AdminConsole.Tree.Display
import AdminConsole.Tree.Folding
import AdminConsole.Tree.Node
import AdminConsole.Tree.Rows
import AdminConsole.Tree.View
