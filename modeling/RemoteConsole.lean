import RemoteConsole.Action
import RemoteConsole.Assoc
import RemoteConsole.Batch
import RemoteConsole.Capability.Args
import RemoteConsole.Capability.Context
import RemoteConsole.Capability.Direction
import RemoteConsole.Capability.Namespace
import RemoteConsole.Capability.Nearest
import RemoteConsole.Capability.Tool
import RemoteConsole.Clock
import RemoteConsole.CommandLine.Invocation
import RemoteConsole.CommandLine.Options
import RemoteConsole.CommandLine.Report
import RemoteConsole.CommandLine.Run
import RemoteConsole.Config.Basic
import RemoteConsole.Config.File
import RemoteConsole.Double.Basic
import RemoteConsole.Double.Digits
import RemoteConsole.Double.Text
import RemoteConsole.Error
import RemoteConsole.Files.Discovery
import RemoteConsole.Files.Tree
import RemoteConsole.Hook
import RemoteConsole.Json.Basic
import RemoteConsole.Json.Printer
import RemoteConsole.Json.Reader
import RemoteConsole.Link.Basic
import RemoteConsole.Link.Packet
import RemoteConsole.Link.Rcon
import RemoteConsole.Link.Scripted
import RemoteConsole.Link.Server
import RemoteConsole.Main
import RemoteConsole.Proofs.Action
import RemoteConsole.Proofs.Assoc
import RemoteConsole.Proofs.Batch
import RemoteConsole.Proofs.Double.Literal
import RemoteConsole.Proofs.Double.Nearest
import RemoteConsole.Proofs.Double.Numeral
import RemoteConsole.Proofs.Reply.Envelope
import RemoteConsole.Proofs.Script.Block
import RemoteConsole.Proofs.Script.Check
import RemoteConsole.Proofs.Script.Literal
import RemoteConsole.Proofs.Script.Registry
import RemoteConsole.Proofs.Script.Split
import RemoteConsole.Proofs.Script.Substitution
import RemoteConsole.Proofs.Script.Template
import RemoteConsole.Proofs.Session.Again
import RemoteConsole.Proofs.Session.Body
import RemoteConsole.Proofs.Session.Calls
import RemoteConsole.Proofs.Session.Commands
import RemoteConsole.Proofs.Session.Commit
import RemoteConsole.Proofs.Session.Frame
import RemoteConsole.Proofs.Session.History
import RemoteConsole.Proofs.Session.Idle
import RemoteConsole.Proofs.Session.Install
import RemoteConsole.Proofs.Session.Invoke
import RemoteConsole.Proofs.Session.Ledger
import RemoteConsole.Proofs.Session.Remote
import RemoteConsole.Proofs.Session.Rounds
import RemoteConsole.Proofs.Session.Start
import RemoteConsole.Proofs.Session.Transaction
import RemoteConsole.Proofs.Table.Atom
import RemoteConsole.Proofs.Table.Decoded
import RemoteConsole.Proofs.Table.Grammar
import RemoteConsole.Proofs.Table.Layout
import RemoteConsole.Proofs.Table.Literal
import RemoteConsole.Proofs.Table.Meaning
import RemoteConsole.Proofs.Table.Quoted
import RemoteConsole.Proofs.Table.RoundTrip
import RemoteConsole.Proofs.Table.Token
import RemoteConsole.Proofs.Table.Unique
import RemoteConsole.Proofs.Text.Runs
import RemoteConsole.Proofs.Text.Trim
import RemoteConsole.Proofs.Text.Utf8
import RemoteConsole.Reply.Decode
import RemoteConsole.Reply.Inventory
import RemoteConsole.Reply.Location
import RemoteConsole.Reply.Message
import RemoteConsole.Script.Fingerprint
import RemoteConsole.Script.Fragment
import RemoteConsole.Script.Lexeme
import RemoteConsole.Script.Registry
import RemoteConsole.Script.Structure
import RemoteConsole.Script.Template
import RemoteConsole.Session.Basic
import RemoteConsole.Session.Console
import RemoteConsole.Table.Error
import RemoteConsole.Table.Escape
import RemoteConsole.Table.Expectation
import RemoteConsole.Table.Lexeme
import RemoteConsole.Table.Normal
import RemoteConsole.Table.Raw
import RemoteConsole.Table.Syntax
import RemoteConsole.Text.CharSet
import RemoteConsole.Text.Numeral
import RemoteConsole.Text.Search
import RemoteConsole.Text.Uppercase
import RemoteConsole.Text.Utf8
import RemoteConsole.Text.WordChar
import RemoteConsole.Toml.Basic
import RemoteConsole.Toml.Reader
import RemoteConsole.Toml.Scalar
import RemoteConsole.Value.Basic
import RemoteConsole.Value.Conversion
import RemoteConsole.Value.Json
import RemoteConsole.Value.Literal
import RemoteConsole.Proofs.Link.Collect
import RemoteConsole.Proofs.Link.Exchange
import RemoteConsole.Proofs.Link.Replies
import RemoteConsole.Proofs.Session.Direct
import RemoteConsole.Proofs.Session.Deferred
import RemoteConsole.Proofs.Session.Nested
import RemoteConsole.Proofs.Files.Discovery
import RemoteConsole.Proofs.Files.Tree
import RemoteConsole.Proofs.Session.Discarded
import RemoteConsole.Proofs.Session.Loading
import RemoteConsole.Proofs.Session.Reload
import RemoteConsole.Proofs.Session.Bindings
import RemoteConsole.Proofs.Capability.Namespace
import RemoteConsole.Proofs.Hook
import RemoteConsole.Proofs.Capability.Contract
import RemoteConsole.Proofs.Link.Failure
import RemoteConsole.Proofs.Session.Steady
import RemoteConsole.Proofs.Session.Validated
import RemoteConsole.Proofs.Session.Teardown
import RemoteConsole.Proofs.Table.Escape
import RemoteConsole.Proofs.Table.Arrangement
import RemoteConsole.Proofs.Reply.Inventory
import RemoteConsole.Proofs.Reply.Counts
import RemoteConsole.Proofs.Text.Search
import RemoteConsole.Proofs.Text.CharSet
import RemoteConsole.Proofs.Text.Lines
import RemoteConsole.Proofs.Reply.Location
import RemoteConsole.Proofs.Reply.Extraction
import RemoteConsole.Proofs.Reply.Message
import RemoteConsole.Proofs.Reply.Banner
import RemoteConsole.Proofs.Reply.Silence
import RemoteConsole.Proofs.Script.Replacement
import RemoteConsole.Proofs.Capability.Nearest
import RemoteConsole.Proofs.Link.Framing
import RemoteConsole.Proofs.Double.Order
import RemoteConsole.Proofs.Capability.Integer
import RemoteConsole.Proofs.Session.Speed
import RemoteConsole.Proofs.Wait
import RemoteConsole.Proofs.Session.Sleep
import RemoteConsole.Proofs.Double.Closest
import RemoteConsole.Proofs.Table.Integer
import RemoteConsole.Proofs.Script.Append
import RemoteConsole.Proofs.Script.StringLiteral
import RemoteConsole.Proofs.Table.Formatted
import RemoteConsole.Proofs.Text.ByteOrder
import RemoteConsole.Proofs.Value.Json
import RemoteConsole.Proofs.Script.LongBracket
