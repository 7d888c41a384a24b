import Anybus.Linkstate.Db
import Mathlib.Data.List.MinMax
import Mathlib.Data.List.Dedup

/-!
# The forwarding table

The table keeps one choice per endpoint: the best route of an anycast entry, the
only route of a unicast or node entry, and all listeners and first hops of a
broadcast entry. Packets from local clients enter through `send`, packets from
neighbours through `forward`, which accepts them only on the link this node itself
would use towards their source.
-/

namespace Anybus

/-- Where a packet goes next. -/
inductive FibForwardTo where
  | loc (sender : Sender)
  | remote (link : Link)
  deriving DecidableEq

/-- The choice made for one endpoint. -/
inductive FibEntry where
  | single (hop : FibForwardTo)
  | multiCast (hops : List FibForwardTo)
  deriving DecidableEq

namespace FibEntry

/-- All hops of an entry. -/
def hops : FibEntry → List FibForwardTo
  | .single h => [h]
  | .multiCast v => v

/-- The local listeners among the hops. -/
def locals (e : FibEntry) : List Sender := e.hops.filterMap fun
  | .loc tx => some tx
  | .remote _ => none

/-- The links among the hops. -/
def remotes (e : FibEntry) : List Link := e.hops.filterMap fun
  | .remote link => some link
  | .loc _ => none

end FibEntry

/-- Why a packet of a local client was not sent; the payload comes back. -/
inductive SendError where
  | noRoute (payload : Option Payload)
  | full (payload : Option Payload)
  | closed (payload : Option Payload)
  deriving DecidableEq, Repr

/-- The error of a refused message. -/
def SendError.ofTrySend (e : TrySendError) (payload : Payload) : SendError :=
  match e with
  | .full => .full (some payload)
  | .closed => .closed (some payload)

/-- The published forwarding state of a node. -/
structure ForwardingTable where
  ourId : NodeId
  table : HashMap EndpointId FibEntry
  links : HashMap ConnectionId Link
  nextHop : HashMap NodeId Link
  deriving DecidableEq

/-- Queue a message for a peer and ignore the outcome. -/
def Wires.offerNode (w : Wires) (link : Link) (m : NodeMessage) : Wires :=
  { w with node := Function.update w.node link.tx ((w.node link.tx).offer m) }

namespace ForwardingTable

/-- The table before the first route change. -/
def new (ourId : NodeId) : ForwardingTable := ⟨ourId, ∅, ∅, ∅⟩

/-- Send one copy of a broadcast packet; a refusal is only logged. -/
def sendHop (packet : Packet) (w : Wires) : FibForwardTo → Wires
  | .loc sender => w.offerClient sender (.message packet)
  | .remote nextHop => w.offerNode nextHop (.wirePacket packet.toWire)

/-- Send a packet of a local client. -/
def send (fib : ForwardingTable) (w : Wires) (packet : Packet) : Except SendError Wires :=
  match fib.table.get (packet.toAddress.getEndpoint fib.ourId) with
  | none => .error (.noRoute (some packet.payload))
  | some (.single (.loc sender)) =>
    match (w.client sender).trySend (.message packet) with
    | .ok c => .ok { w with client := Function.update w.client sender c }
    | .error e => .error (.ofTrySend e packet.payload)
  | some (.single (.remote nextHop)) =>
    match (w.node nextHop.tx).trySend (.wirePacket packet.toWire) with
    | .ok c => .ok { w with node := Function.update w.node nextHop.tx c }
    | .error e => .error (.ofTrySend e (.bytes packet.toWire.payload))
  | some (.multiCast hops) => .ok (hops.foldl (sendHop packet) w)

/-- Whether a packet passes the checks of `forward`: it is not our own, and it came in
on the link this node uses towards its source. -/
def accepts (fib : ForwardingTable) (packet : WirePacket) (connectionId : ConnectionId) : Bool :=
  if packet.fromNode = fib.ourId then false
  else
    match fib.nextHop.get packet.fromNode with
    | some link => decide (link.connectionId = connectionId)
    | none => false

/-- Whether a link leads back towards the source of a packet. -/
def isBackPath (fib : ForwardingTable) (packet : WirePacket) (link : Link) : Bool :=
  match fib.nextHop.get packet.fromNode with
  | some fromHop => decide (fromHop.peerId = link.peerId)
  | none => false

/-- Pass a packet on to a local listener. -/
def txLocal (w : Wires) (tx : Sender) (p : WirePacket) : Wires :=
  w.offerClient tx (.message p.toPacket)

/-- Pass a packet on to a neighbour, unless it leads back towards the source. -/
def txRemote (fib : ForwardingTable) (w : Wires) (link : Link) (p : WirePacket) : Wires :=
  if fib.isBackPath p link then w else w.offerNode link (.wirePacket p)

/-- Handle a packet from a neighbour. -/
def forward (fib : ForwardingTable) (w : Wires) (packet : WirePacket)
    (connectionId : ConnectionId) : Wires :=
  if fib.accepts packet connectionId then
    match fib.table.get (packet.toAddress.getEndpoint fib.ourId) with
    | none => w
    | some fibEntry =>
      let w := fibEntry.locals.foldl (fun w tx => txLocal w tx packet) w
      fibEntry.remotes.foldl (fun w link => fib.txRemote w link packet) w
  else w

end ForwardingTable

namespace LsDb

/-- The total cost of an anycast route, if its node can be reached. -/
def anycastTotal (lsdb : LsDb) (route : LsRoute) : Option Cost :=
  match route.via with
  | .loc _ => some route.cost
  | .remote nodeId =>
    match lsdb.cost.get nodeId with
    | none => none
    | some path =>
      if path = Cost.max then none
      else
        match lsdb.nextHop.get nodeId with
        | none => none
        | some _ => some (route.cost + path)

/-- The hop a route stands for, if its node can be reached. -/
def fibForward (lsdb : LsDb) (route : LsRoute) : Option FibForwardTo :=
  match route.via with
  | .loc sender => some (.loc sender)
  | .remote nodeId => (lsdb.nextHop.get nodeId).map .remote

/-- The first route of least total cost of an anycast entry. -/
def anycastChoice (lsdb : LsDb) (routes : List LsRoute) : Option LsRoute :=
  ((routes.filterMap fun route => (lsdb.anycastTotal route).map fun total => (total, route)).argmin
    Prod.fst).map Prod.snd

/-- The hops of a broadcast entry: every local listener, and one link for each
distinct first-hop neighbour. -/
def broadcastHops (lsdb : LsDb) (routes : List LsRoute) : List FibForwardTo :=
  let locals := routes.filterMap fun route =>
    match route.via with
    | .loc sender => some (FibForwardTo.loc sender)
    | .remote _ => none
  let remotes := routes.filterMap fun route =>
    match route.via with
    | .loc _ => none
    | .remote nodeId => (lsdb.nextHop.get nodeId).map fun nextHop => nextHop.peerId
  locals ++ remotes.dedup.filterMap fun nodeId => (lsdb.nextHop.get nodeId).map .remote

/-- The choice for one route entry. The outer `none` is the unimplemented multicast
branch, the inner one an entry without a usable route. -/
def fibEntry (lsdb : LsDb) (entry : LsRouteEntry) : Option (Option FibEntry) :=
  match entry.kind with
  | .anycast =>
    some (((lsdb.anycastChoice entry.routes).bind lsdb.fibForward).map .single)
  | .unicast | .node =>
    some (((entry.routes.argmin fun r => r.cost).bind lsdb.fibForward).map .single)
  | .broadcast =>
    let forwards := lsdb.broadcastHops entry.routes
    some (if forwards.isEmpty then none else some (.multiCast forwards))
  | .multicast => none

/-- Insert the choices for the visited route entries. -/
def buildTable (lsdb : LsDb) : List (Σ _ : EndpointId, LsRouteEntry) →
    HashMap EndpointId FibEntry → Option (HashMap EndpointId FibEntry)
  | [], table => some table
  | ⟨endpointId, routeEntry⟩ :: rest, table =>
    match lsdb.fibEntry routeEntry with
    | none => none
    | some none => lsdb.buildTable rest table
    | some (some fibEntry) => lsdb.buildTable rest (table.insert endpointId fibEntry)

/-- Build the forwarding table from the routes and the last path computation. -/
def buildFromDb (lsdb : LsDb) : Option ForwardingTable :=
  (lsdb.buildTable lsdb.routes.table.entries ∅).map fun table =>
    ⟨lsdb.selfId, table, lsdb.links, lsdb.nextHop⟩

/-- Recompute paths and build the forwarding table; `none` if either panics. -/
def buildFib (db : LsDb) : Option (LsDb × ForwardingTable) :=
  match db.computeSpf db.selfId with
  | some db =>
    let db := { db with rebuildRequested := none }
    db.buildFromDb.map fun fib => (db, fib)
  | none => none

end LsDb

end Anybus
