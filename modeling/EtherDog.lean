import EtherDog.Data.Replay
import EtherDog.Data.Codec
import EtherDog.Bus.Trigger
import EtherDog.Bus.Relapse
import EtherDog.Bus.FastPath
import EtherDog.Bus.Restart
import EtherDog.Bus.Buffers
import EtherDog.Layout.Identity
import EtherDog.Start.Closed
import EtherDog.Bus.Commands
import EtherDog.Config.Single
import EtherDog.Control.Client
import EtherDog.Control.Framing
import EtherDog.Control.Replies
import EtherDog.Control.Server
import EtherDog.Log.Sink
import EtherDog.Start.Topology
import EtherDog.Data.Newest
import EtherDog.Config.StationInts
import EtherDog.Config.Valid
import EtherDog.Config.SdoValue
import EtherDog.Start.FixedExact
import EtherDog.Start.SdoEncode
import EtherDog.Start.SdoWriter
import EtherDog.Start.IfaceCrash
import EtherDog.Bus.Metrics
import EtherDog.Bus.AlPoll
import EtherDog.Log.Ring
import EtherDog.Log.SinkLine
import EtherDog.Config.IndexText
import EtherDog.Data.ClientBits
import EtherDog.Start.IfaceFile
import EtherDog.Start.OpPoll
import EtherDog.Start.Iomap
import EtherDog.Data.Link
import EtherDog.Bus.Schedule
import EtherDog.Control.Rpc
import EtherDog.Control.Access
import EtherDog.Lib.Inet
import EtherDog.Json.Reply
