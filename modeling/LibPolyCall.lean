import LibPolyCall.Library.Runs
import LibPolyCall.StateMachine.Machine
import LibPolyCall.StateMachine.Execute
import LibPolyCall.StateMachine.Walk
import LibPolyCall.Protocol.Message
import LibPolyCall.Protocol.Session
import LibPolyCall.Protocol.Calls
import LibPolyCall.Protocol.Steps
import LibPolyCall.Protocol.Authentication
import LibPolyCall.Protocol.Wiring
import LibPolyCall.Protocol.Permission
import LibPolyCall.Protocol.Agreement
import LibPolyCall.Protocol.Setup
import LibPolyCall.Protocol.Delivery
import LibPolyCall.Node.ProtocolHandler
import LibPolyCall.Node.Interop
import LibPolyCall.StateMachine.Changes
import LibPolyCall.StateMachine.Requests
import LibPolyCall.StateMachine.Invariant
import LibPolyCall.StateMachine.Names
import LibPolyCall.StateMachine.Integrity
import LibPolyCall.StateMachine.Versions
import LibPolyCall.StateMachine.Locks
import LibPolyCall.Library.Mask
import LibPolyCall.Micro.Context
import LibPolyCall.Micro.Slots
import LibPolyCall.Micro.Table
import LibPolyCall.Micro.Queue
import LibPolyCall.Micro.Garbage
import LibPolyCall.Library.Scan
import LibPolyCall.Library.Lines
import LibPolyCall.Library.Spans
import LibPolyCall.Library.Keyed
import LibPolyCall.Library.Disk
import LibPolyCall.Config.Values
import LibPolyCall.Config.Parser
import LibPolyCall.Config.Entries
import LibPolyCall.Config.ServerLine
import LibPolyCall.Config.Loader
import LibPolyCall.Config.Migrate
import LibPolyCall.Config.Merge
import LibPolyCall.Config.RoundTrip
import LibPolyCall.Config.Layers
import LibPolyCall.Library.Lexing
import LibPolyCall.Tokenizer.Matchers
import LibPolyCall.Tokenizer.Tokenizer
import LibPolyCall.Tokenizer.Reference
import LibPolyCall.Tokenizer.History
import LibPolyCall.Library.Fuel
import LibPolyCall.Library.Forest
import LibPolyCall.Parser.Ast
import LibPolyCall.Parser.Nodes
import LibPolyCall.Parser.Parse
import LibPolyCall.Parser.Rounds
import LibPolyCall.Parser.Termination
import LibPolyCall.Parser.Program
import LibPolyCall.Parser.Optimize
import LibPolyCall.Library.Locking
import LibPolyCall.Library.Steps
import LibPolyCall.Library.Ledger
import LibPolyCall.Network.Program
import LibPolyCall.Network.Run
import LibPolyCall.Network.Effects
import LibPolyCall.Network.Deadlock
import LibPolyCall.Network.Descriptors
import LibPolyCall.Runtime.Runtime
import LibPolyCall.Runtime.Mappings
import LibPolyCall.Runtime.Table
import LibPolyCall.Runtime.Ports
import LibPolyCall.Runtime.ConfigFile
import LibPolyCall.Protocol.Sequence
import LibPolyCall.Protocol.Corruption
import LibPolyCall.Protocol.Texts
import LibPolyCall.Config.ServerFields
import LibPolyCall.Library.Stores
import LibPolyCall.Tokenizer.Buffer
import LibPolyCall.Tokenizer.Rounds
import LibPolyCall.Library.Doubles
import LibPolyCall.Tokenizer.Numbers
import LibPolyCall.Tokenizer.Bounds
import LibPolyCall.Library.Positions
import LibPolyCall.Tokenizer.Positions
import LibPolyCall.Library.Compaction
import LibPolyCall.Micro.Filter
import LibPolyCall.Library.Languages
import LibPolyCall.Parser.Transforms
import LibPolyCall.Tokenizer.Literals
import LibPolyCall.Parser.Slots
import LibPolyCall.Parser.Validate
import LibPolyCall.Library.Window
import LibPolyCall.Library.Words
import LibPolyCall.Runtime.Interactive
import LibPolyCall.Library.Trees
import LibPolyCall.Parser.Collapse
import LibPolyCall.Node.Requests
import LibPolyCall.Node.StateMachine
import LibPolyCall.Node.Overlaps
import LibPolyCall.Node.Serial
import LibPolyCall.Library.Exchange
import LibPolyCall.Protocol.Peers
import LibPolyCall.StateMachine.Defaults
import LibPolyCall.Parser.Strings
import LibPolyCall.Node.Endpoint
import LibPolyCall.Node.Sending
import LibPolyCall.Library.Heap
import LibPolyCall.Tokenizer.Memory
import LibPolyCall.Config.Commands
