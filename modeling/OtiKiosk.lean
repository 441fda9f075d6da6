import OtiKiosk.Lib.Ascii
import OtiKiosk.Lib.Json
import OtiKiosk.Lib.Transition
import OtiKiosk.Lib.Reactor
import OtiKiosk.Lib.Ledger
import OtiKiosk.Lib.Binary64
import OtiKiosk.Lib.Slots
import OtiKiosk.Lib.Datum
import OtiKiosk.Lib.Sink
import OtiKiosk.Lib.Members
import OtiKiosk.Lib.Lines
import OtiKiosk.Lib.Attempt
import OtiKiosk.Mjson.Strtod
import OtiKiosk.Mjson.Tokenizer
import OtiKiosk.Mjson.Find
import OtiKiosk.Mjson.Grammar
import OtiKiosk.Mjson.Lookup
import OtiKiosk.Mjson.Values
import OtiKiosk.Mjson.Strict
import OtiKiosk.Mjson.Exact
import OtiKiosk.Mjson.Unescape
import OtiKiosk.Mjson.Partial
import OtiKiosk.Mjson.Paths
import OtiKiosk.Commands.Types
import OtiKiosk.Commands.Parse
import OtiKiosk.Commands.Identity
import OtiKiosk.Commands.Provenance
import OtiKiosk.Commands.Locality
import OtiKiosk.Commands.Cancel
import OtiKiosk.Commands.Reading
import OtiKiosk.Commands.Fields
import OtiKiosk.Commands.Tokens
import OtiKiosk.Commands.Bounds
import OtiKiosk.Commands.Build
import OtiKiosk.Client.Operations
import OtiKiosk.Client.Replies
import OtiKiosk.Client.Shape
import OtiKiosk.Client.Encoding
import OtiKiosk.Client.Numbers
import OtiKiosk.Client.Receive
import OtiKiosk.Client.Spelling
import OtiKiosk.Client.Ids
import OtiKiosk.Client.Texts
import OtiKiosk.Client.Reader
import OtiKiosk.Client.Framing
import OtiKiosk.Client.Handover
import OtiKiosk.Client.Events
import OtiKiosk.Client.Matching
import OtiKiosk.Client.Integrity
import OtiKiosk.Client.Freshness
import OtiKiosk.Client.Return
import OtiKiosk.Client.Connection
import OtiKiosk.Client.Bookkeeping
import OtiKiosk.Client.Descriptors
import OtiKiosk.Client.Reconnection
import OtiKiosk.Client.Resumption
import OtiKiosk.Printer.Emit
import OtiKiosk.Printer.Outputs
import OtiKiosk.Printer.Strings
import OtiKiosk.Printer.Base64
import OtiKiosk.Printer.Formats
import OtiKiosk.Printer.ReadBack
import OtiKiosk.Rpc.Context
import OtiKiosk.Rpc.Framing
import OtiKiosk.Rpc.Dispatch
import OtiKiosk.Rpc.Replies
import OtiKiosk.Rpc.Peers
import OtiKiosk.Rpc.Listing
import OtiKiosk.CJson.Print
import OtiKiosk.CJson.Tree
import OtiKiosk.CJson.Escapes
import OtiKiosk.CJson.Buffer
import OtiKiosk.CJson.Exact
import OtiKiosk.CJson.Blocks
import OtiKiosk.CJson.Meaning
import OtiKiosk.CJson.Items
import OtiKiosk.Demo.Loop
import OtiKiosk.Demo.Settlement
import OtiKiosk.Demo.Payments
import OtiKiosk.Demo.Hang
import OtiKiosk.Demo.Recovery
import OtiKiosk.Demo.Clients
import OtiKiosk.Demo.Alternation
import OtiKiosk.Demo.Display
import OtiKiosk.Demo.Messages
