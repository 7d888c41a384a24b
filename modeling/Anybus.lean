import Anybus.Spf.LinkChoice
import Anybus.Db.OwnSeq
import Anybus.Db.Advertise
import Anybus.Network.FloodEnds
import Anybus.Router.Published
import Anybus.Db.Change
import Anybus.Db.AdvertisedRealm
import Anybus.Db.RemoteRoutes
import Anybus.Db.UnicastMove
import Anybus.Db.OwnRouter
import Anybus.Db.Panics
import Anybus.Router.Crash
import Anybus.Peers.Heartbeat
import Anybus.Peers.WsPeer
import Anybus.Ws.Session
import Anybus.Peers.IpcManager
import Anybus.Ipc.TwoDials
import Anybus.Ipc.Moves
import Anybus.Ipc.Sessions
import Anybus.Ipc.Settle
import Anybus.Db.Queues
import Anybus.Db.Pending
import Anybus.Db.Superseded
import Anybus.Db.FirstCopy
import Anybus.Network.Realms
import Anybus.Network.Packets
import Anybus.Network.Delivery
import Anybus.Db.AdvertisedCost
import Anybus.Network.Anycast
import Anybus.Router.Bus
import Anybus.Core.Trace
import Anybus.Router.CloseSession
import Anybus.Router.DropListener
import Anybus.Router.Registration
import Anybus.Rpc.Request
import Anybus.Rpc.Replies
import Anybus.Ipc.Tasks
import Anybus.Ipc.Ghosts
import Anybus.Db.TableInv
import Anybus.Db.Purge
import Anybus.Spf.NextHops
import Anybus.Router.BestChoice
import Anybus.Router.ConnectionIds
import Anybus.Core.Search
import Anybus.Peers.WsManager
import Anybus.Ws.ReconnectQueue
import Anybus.Ws.Node
import Anybus.Ws.OwnEntry
import Anybus.Ws.RemovedPeer
import Anybus.Ipc.DirectorySockets
import Anybus.Peers.IpcDirectory
import Anybus.Ipc.DirectoryWakes
import Anybus.Ipc.Pairing
import Anybus.Db.Growing
import Anybus.Network.Coverage
import Anybus.Peers.HeartbeatClock
import Anybus.Core.Receive
import Anybus.Receivers.Receiver
import Anybus.Receivers.ThreeWays
import Anybus.Core.AnyBox
import Anybus.Receivers.Reveal
import Anybus.Core.Assoc
import Anybus.Core.Pipe
import Anybus.Dummy.Counts
import Anybus.Receivers.Service
import Anybus.Rpc.Expansion
import Anybus.Rpc.Stubs
import Anybus.Lifecycle.Suspend
import Anybus.Network.Traffic
import Anybus.Rpc.Local
import Anybus.Db.Freshness
import Anybus.Network.Calls
import Anybus.Ws.Link
import Anybus.Ws.Books
import Anybus.Db.TakeUp
import Anybus.Network.Alike
import Anybus.Network.Changes
import Anybus.Receivers.Builder
import Anybus.Router.NeverPanics
import Anybus.Network.Services
