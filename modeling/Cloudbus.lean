import Cloudbus.Messages
import Cloudbus.Streams
import Cloudbus.Xmsg
import Cloudbus.Marshaller
import Cloudbus.Framing
import Cloudbus.Lib.Table
import Cloudbus.Connector
import Cloudbus.Controller
import Cloudbus.Segment
import Cloudbus.Lib.Loop
import Cloudbus.Effect
import Cloudbus.Acts
import Cloudbus.History
import Cloudbus.ControllerActs
import Cloudbus.ControllerRuns
import Cloudbus.ControllerTurns
import Cloudbus.SegmentActs
import Cloudbus.SegmentRuns
import Cloudbus.SegmentTurns
import Cloudbus.ConnectOnce
import Cloudbus.Exclusive
import Cloudbus.HalfClose
import Cloudbus.Lib.Ordered
import Cloudbus.Interface
import Cloudbus.Footprint
import Cloudbus.Isolation
import Cloudbus.Lookup
import Cloudbus.Orphans
import Cloudbus.ConnectFailure
import Cloudbus.Interest
import Cloudbus.Flow
import Cloudbus.Transit
import Cloudbus.Lib.Charge
import Cloudbus.Fabric
import Cloudbus.Trigger
import Cloudbus.Lib.Text
import Cloudbus.Config
import Cloudbus.ConfigPrint
import Cloudbus.Addresses
import Cloudbus.Lib.Cycle
import Cloudbus.RoundRobin
import Cloudbus.Refused
import Cloudbus.Resolver
import Cloudbus.ResolverRuns
import Cloudbus.Selection
import Cloudbus.FirstChunk
import Cloudbus.Progress
import Cloudbus.TimerQueue
import Cloudbus.Lib.Scan
import Cloudbus.MakeAddress
import Cloudbus.AddressGrammar
import Cloudbus.HostPort
import Cloudbus.ConfigBounds
import Cloudbus.Sockbuf
import Cloudbus.SockbufProgress
import Cloudbus.PendingConnects
import Cloudbus.Services
import Cloudbus.Fanout
import Cloudbus.Closing
import Cloudbus.DnsText
import Cloudbus.Lib.OrderedMap
import Cloudbus.Lib.Registry
import Cloudbus.Lib.Signed
import Cloudbus.Manager
import Cloudbus.MarshallerRegistry
import Cloudbus.Metrics
import Cloudbus.NodeLoop
import Cloudbus.XmsgPointers
import Cloudbus.Grammar
import Cloudbus.Calm
import Cloudbus.Storm
import Cloudbus.Ledger
import Cloudbus.Network
import Cloudbus.Downstream
