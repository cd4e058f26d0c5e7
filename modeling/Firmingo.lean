import Firmingo.Octets
import Firmingo.Runs
import Firmingo.Protocol
import Firmingo.Stream
import Firmingo.Json
import Firmingo.Upload
import Firmingo.Channel
import Firmingo.Backends
import Firmingo.Request
import Firmingo.Replies
import Firmingo.Lengths
import Firmingo.Session
import Firmingo.Machine
import Firmingo.Refine
import Firmingo.Dispatch
import Firmingo.RefinePoll
import Firmingo.System
import Firmingo.Ownership
import Firmingo.Inward
import Firmingo.Outward
import Firmingo.Core1Pause
import Firmingo.Hello
import Firmingo.Diagnostics
import Firmingo.Turns
import Firmingo.Fairness
import Firmingo.Slots
import Firmingo.Mailbox
import Firmingo.PrefixCodes
import Firmingo.Framing
import Firmingo.Execution
import Firmingo.Correlation
import Firmingo.Effects
import Firmingo.Endpoint
import Firmingo.Isolation
import Firmingo.Image
import Firmingo.Install
import Firmingo.UploadLog
import Firmingo.FmgoUpload
import Firmingo.FlashSafety
import Firmingo.StatefulImage
import Firmingo.StatefulRuntime
import Firmingo.StatefulUpload
import Firmingo.StatefulSafety
import Firmingo.Capsules
import Firmingo.Composite
import Firmingo.Boot
import Firmingo.ModuleElf
import Firmingo.Dhcp
import Firmingo.DhcpLeases
import Firmingo.Clocks
import Firmingo.Services
import Firmingo.Checked
import Firmingo.StatefulWords
import Firmingo.FlashPort
import Firmingo.Fifo
import Firmingo.Pipes
import Firmingo.Uart
import Firmingo.UploadWire
import Firmingo.Uf2
import Firmingo.JsonGrammar
import Firmingo.JsonText
import Firmingo.JsonScalars
import Firmingo.JsonTree
import Firmingo.JsonParse
import Firmingo.JsonIndex
import Firmingo.JsonShape
import Firmingo.ReplyShapes
import Firmingo.SecureHash
import Firmingo.ImageHash
import Firmingo.DhcpFrame
import Firmingo.DhcpWire
import Firmingo.Exclusion
import Firmingo.Rejections
import Firmingo.Transport
import Firmingo.PollClocks
import Firmingo.Deadlines
import Firmingo.ReplyDocuments
import Firmingo.Ledgers
import Firmingo.TcpSession
import Firmingo.TcpHandles
import Firmingo.TcpBytes
import Firmingo.TcpServer
import Firmingo.TcpDiscipline
import Firmingo.TcpActions
