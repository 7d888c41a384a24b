import Anybus.Linkstate.RouteTable
import Anybus.Linkstate.Spf

/-!
# The link state database

`LsDb` holds the LSAs a node knows, its links, the result of the last path
computation and the route table. Operations that can reach a panic return `none`
there. The clock is read once per operation.
-/

namespace Anybus

/-- The routing state of one node. -/
structure LsDb where
  db : HashMap LsaKey LsaRecord
  selfId : NodeId
  links : HashMap ConnectionId Link
  pendingTx : HashMap (ConnectionId × LsaKey) Nat
  nextHop : HashMap NodeId Link
  cost : HashMap NodeId Cost
  parent : HashMap NodeId NodeId
  routes : RouteTable
  rebuildRequested : Option Instant
  lastRefresh : Instant
  lsaTimeout : Duration
  lastTick : Instant
  deriving DecidableEq

namespace LsDb

/-- The key of the node's own router LSA. -/
def selfKey (db : LsDb) : LsaKey := ⟨db.selfId, db.selfId⟩

/-- The number of clock units in the LSA timeout of 60 seconds, in milliseconds. -/
def defaultTimeout : Duration := 60000

/-- A fresh database knows only its own router LSA, without adjacencies. -/
def new (selfId : NodeId) (now : Instant) : LsDb where
  db := (∅ : HashMap LsaKey LsaRecord).insert ⟨selfId, selfId⟩
    ⟨⟨⟨selfId, selfId⟩, 0, false, .router []⟩, now⟩
  selfId := selfId
  links := ∅
  pendingTx := ∅
  nextHop := ∅
  cost := ∅
  parent := ∅
  routes := RouteTable.new
  rebuildRequested := none
  lastRefresh := now
  lsaTimeout := defaultTimeout
  lastTick := now

/-- Ask for a new forwarding table, unless one is already asked for. -/
def requestRebuild (db : LsDb) (now : Instant) : LsDb :=
  { db with rebuildRequested := some (db.rebuildRequested.getD now) }

/-- Run the path computation and store its result; `none` if it panics. -/
def computeSpf (db : LsDb) (root : NodeId) : Option LsDb :=
  match spf db.db db.links root with
  | some s => some { db with nextHop := s.nextHop, cost := s.cost, parent := s.parent }
  | none => none

/-- Whether a neighbour is the way back to the origin of an LSA. -/
def isBackPath (db : LsDb) (origin : NodeId) (link : Link) : Bool :=
  match db.nextHop.get origin with
  | some fromHop => decide (fromHop.peerId = link.peerId)
  | none => false

/-- Whether a flood passes a link by: it is the inbound link, it leads to the
origin, or it leads to the way back to the origin. -/
def floodSkips (db : LsDb) (lsa : Lsa) (inConnectionId : Option ConnectionId)
    (outConnId : ConnectionId) (outLink : Link) : Bool :=
  decide (some outConnId = inConnectionId) || decide (lsa.key.origin = outLink.peerId) ||
    db.isBackPath lsa.key.origin outLink

/-- Hand an LSA to one link and remember it as unacknowledged if it was queued. -/
def sendAndTrack (link : Link) (lsa : Lsa)
    (acc : HashMap (ConnectionId × LsaKey) Nat × Wires) :
    HashMap (ConnectionId × LsaKey) Nat × Wires :=
  match link.sendLsa acc.2 lsa with
  | (w, .ok _) => (acc.1.insert (link.connectionId, lsa.key) lsa.seq, w)
  | (w, .error _) => (acc.1, w)

/-- Hand an LSA to every link the flood does not pass by. -/
def floodAllNeighbors (db : LsDb) (w : Wires) (lsa : Lsa)
    (inConnectionId : Option ConnectionId) : LsDb × Wires :=
  let targets := db.links.entries.filter fun e => !db.floodSkips lsa inConnectionId e.1 e.2
  let acc := targets.foldl (fun acc e => sendAndTrack e.2 lsa acc) (db.pendingTx, w)
  ({ db with pendingTx := acc.1 }, acc.2)

/-- Hand the whole database to one link. -/
def floodPeer (db : LsDb) (w : Wires) (connectionId : ConnectionId) : LsDb × Wires :=
  match db.links.get connectionId with
  | none => (db, w)
  | some link =>
    let acc := db.db.values.foldl (fun acc record => sendAndTrack link record.lsa acc)
      (db.pendingTx, w)
    ({ db with pendingTx := acc.1 }, acc.2)

/-- Announce that the node is leaving, then forget everything. -/
def shutdown (db : LsDb) (w : Wires) (now : Instant) : LsDb × Wires :=
  let r := match db.db.get db.selfKey with
    | some record =>
      let lsa := { record.lsa with dead := true, seq := record.lsa.seq + 1 }
      let db := { db with db := db.db.insert db.selfKey ⟨lsa, now⟩ }
      match lsa.body with
      | .router _ => db.floodAllNeighbors w lsa none
      | .endpoint _ => (db, w)
    | none => (db, w)
  let routes := r.1.routes.shutdown r.2
  ({ r.1 with db := ∅, links := ∅, routes := routes.1 }, routes.2)

/-- Whether an own record is due for a refresh. -/
def dueForRefresh (db : LsDb) (now : Instant) (record : LsaRecord) : Bool :=
  decide (record.lsa.key.origin = db.selfId) && decide (record.updatedAt + db.lsaTimeout / 3 < now)

/-- A refreshed record carries the next sequence number. -/
def refreshed (db : LsDb) (now : Instant) (record : LsaRecord) : LsaRecord :=
  if db.dueForRefresh now record then
    ⟨{ record.lsa with seq := record.lsa.seq + 1 }, now⟩
  else record

/-- The first record in iteration order that was not heard of for a whole timeout. -/
def firstStale (db : LsDb) (now : Instant) : Option LsaKey :=
  (db.db.entries.find? fun e => e.2.updatedAt + db.lsaTimeout < now).map Sigma.fst

/-- Peeking extracts the first stale record. It settles the result, so the rest of
the lazy extraction never runs and no route is touched. -/
def purgeStaleLsas (db : LsDb) (now : Instant) : LsDb × Bool :=
  match db.firstStale now with
  | some key => ({ db with db := db.db.erase key }, true)
  | none => (db, false)

/-- Refresh the own records that are due. -/
def refreshAll (db : LsDb) (now : Instant) : LsDb :=
  { db with db := db.db.mapValues fun _ record => db.refreshed now record }

/-- The refreshed LSAs, which are to be flooded. -/
def refreshedLsas (db : LsDb) (now : Instant) : List Lsa :=
  (db.db.values.filter (db.dueForRefresh now)).map fun record => (db.refreshed now record).lsa

/-- Flood several LSAs in turn. -/
def floodEach (db : LsDb) (w : Wires) (toFlood : List Lsa) : LsDb × Wires :=
  toFlood.foldl (fun r lsa => r.1.floodAllNeighbors r.2 lsa none) (db, w)

/-- Refresh and flood the own records that are due, then purge. -/
def refreshAndPurgeLsas (db : LsDb) (w : Wires) (now : Instant) : Option (LsDb × Wires) :=
  let r := (db.refreshAll now).floodEach w (db.refreshedLsas now)
  let p := r.1.purgeStaleLsas now
  if p.2 then
    match p.1.computeSpf p.1.selfId with
    | some db => some ({ db.requestRebuild now with lastRefresh := now }, r.2)
    | none => none
  else some ({ p.1 with lastRefresh := now }, r.2)

/-- The periodic timer; the flag asks for a new forwarding table. -/
def tick (db : LsDb) (w : Wires) (now : Instant) : Option (LsDb × Wires × Bool) :=
  let db := { db with lastTick := now }
  let r := if db.lastRefresh + db.lsaTimeout / 3 < now then db.refreshAndPurgeLsas w now
    else some (db, w)
  match r with
  | some (db, w) =>
    if db.rebuildRequested.isSome then some ({ db with rebuildRequested := none }, w, true)
    else some (db, w, false)
  | none => none

/-- Forget all records and routes of a node. -/
def removeOrigin (db : LsDb) (origin : NodeId) : LsDb :=
  let extracted := db.db.entries.filter fun e => e.1.origin = origin
  { db with
    db := db.db.retain fun k _ => !decide (k.origin = origin)
    routes := extracted.foldl (fun t e => (t.removeRemoteEndpoint e.1.endpointId e.1.origin).1)
      db.routes }

/-- Handle a withdrawal. It is flooded on, and forgotten, only if it is newer than the
stored record; the death of a router takes all records of its origin with it. -/
def removeDeadLsa (db : LsDb) (w : Wires) (lsa : Lsa) (now : Instant) : Option (LsDb × Wires) :=
  if lsa.dead then
    match db.db.get lsa.key with
    | some current =>
      if current.lsa.seq < lsa.seq then
        let removed := match current.lsa.body with
          | .router _ => db.removeOrigin lsa.key.origin
          | .endpoint _ =>
            { db with
              routes := (db.routes.removeRemoteEndpoint lsa.key.endpointId lsa.key.origin).1
              db := db.db.erase lsa.key }
        let r := removed.floodAllNeighbors w lsa none
        let db := r.1.requestRebuild now
        some ({ db with
          routes := (db.routes.removeRemoteEndpoint lsa.key.endpointId lsa.key.origin).1 }, r.2)
      else some (db, w)
    | none => some ({ db with
        routes := (db.routes.removeRemoteEndpoint lsa.key.endpointId lsa.key.origin).1 }, w)
  else none

/-- The route an LSA of another node stands for. -/
def routeInfo (db : LsDb) (lsa : Lsa) : EndpointInfo :=
  match lsa.body with
  | .router _ => ⟨.node, .global, (db.cost.get lsa.key.origin).getD Cost.max⟩
  | .endpoint info => info

/-- Store an LSA if it is newer than what is known, and add its route. A refused route
is only logged. `none` means the LSA was not newer. -/
def upsertLsa (db : LsDb) (lsa : Lsa) (now : Instant) : Option LsDb :=
  let store := (({ db with db := db.db.insert lsa.key ⟨lsa, now⟩ } : LsDb).requestRebuild now)
  let stored := match db.db.get lsa.key with
    | some current => if current.lsa.seq < lsa.seq then some store else none
    | none => some store
  match stored with
  | some db =>
    match db.routes.addRemoteEndpoint lsa.key.endpointId lsa.key.origin (db.routeInfo lsa) with
    | .ok (routes, _) => some { db with routes := routes }
    | .error _ => some db
  | none => none

/-- Acknowledge an LSA on the link it came in on. -/
def sendAck (db : LsDb) (w : Wires) (inConnectionId : ConnectionId) (key : LsaKey) (seq : Nat) :
    Wires :=
  match db.links.get inConnectionId with
  | none => w
  | some inLink => match inLink.sendLsaAck w key seq with
    | .ok w => w
    | .error _ => w

/-- Handle an LSA from a neighbour: acknowledge it, ignore it if it is our own, remove
or store it, flood it on, and recompute paths after a router LSA. -/
def handleLsa (db : LsDb) (w : Wires) (lsa : Lsa) (inConnectionId : ConnectionId) (now : Instant) :
    Option (LsDb × Wires) :=
  let w := db.sendAck w inConnectionId lsa.key lsa.seq
  if lsa.key.origin = db.selfId then some (db, w)
  else if lsa.dead then db.removeDeadLsa w lsa now
  else
    match db.upsertLsa lsa now with
    | none => some (db, w)
    | some db =>
      let r := db.floodAllNeighbors w lsa (some inConnectionId)
      match lsa.body with
      | .router _ =>
        match r.1.computeSpf r.1.selfId with
        | some db => some (db, r.2)
        | none => none
      | .endpoint _ => some r

/-- Handle an acknowledgement: an older one leaves the newer version pending. -/
def handleAck (db : LsDb) (sender : ConnectionId) (key : LsaKey) (seq : Nat) : LsDb :=
  match db.pendingTx.get (sender, key) with
  | some val =>
    if seq < val then { db with pendingTx := (db.pendingTx.erase (sender, key)).insert (sender, key) val }
    else { db with pendingTx := db.pendingTx.erase (sender, key) }
  | none => db

/-- Advertise a new link in the own router LSA; `none` if that record is not a router's. -/
def addAdjacency (db : LsDb) (adjacency : Adjacency) (now : Instant) : Option (LsDb × Lsa) :=
  let root := (db.db.get db.selfKey).getD ⟨⟨db.selfKey, 0, false, .router []⟩, now⟩
  match root.lsa.body with
  | .router adjacencies =>
    let lsa := { root.lsa with
      seq := root.lsa.seq + 1, body := .router (adjacencies ++ [adjacency]) }
    some ({ db with db := db.db.insert db.selfKey ⟨lsa, now⟩ }, lsa)
  | .endpoint _ => none

/-- Take up a new link: advertise it to the others and send it the whole database. -/
def addPeer (db : LsDb) (w : Wires) (link : Link) (now : Instant) : LsDb × Wires :=
  match db.addAdjacency ⟨link.connectionId, link.peerId, link.cost, link.realms⟩ now with
  | none => (db, w)
  | some (db, lsa) =>
    let db := { db with links := db.links.insert link.connectionId link }
    let r := (db.requestRebuild now).floodAllNeighbors w lsa (some link.connectionId)
    r.1.floodPeer r.2 link.connectionId

/-- Withdraw a lost link from the own router LSA and flood the result. -/
def dropAdjacency (db : LsDb) (w : Wires) (connectionId : ConnectionId) (now : Instant) :
    LsDb × Wires :=
  match db.db.get db.selfKey with
  | some record =>
    match record.lsa.body with
    | .router adjacencies =>
      let kept := adjacencies.filter fun adj => adj.connectionId ≠ connectionId
      if kept.length < adjacencies.length then
        let lsa := { record.lsa with seq := record.lsa.seq + 1, body := .router kept }
        ({ db with db := db.db.insert db.selfKey ⟨lsa, now⟩ }).floodAllNeighbors w lsa none
      else (db, w)
    | .endpoint _ => (db, w)
  | none => (db, w)

/-- Give up a link. An unknown connection changes nothing. -/
def removePeer (db : LsDb) (w : Wires) (connectionId : ConnectionId) (now : Instant) :
    Option (LsDb × Wires) :=
  match db.links.get connectionId with
  | none => some (db, w)
  | some _ =>
    let r := ({ db with links := db.links.erase connectionId }).dropAdjacency w connectionId now
    match r.1.computeSpf r.1.selfId with
    | some db => some (db, r.2)
    | none => none

/-- Advertise a new cost of an own endpoint. -/
def updateEndpointCost (db : LsDb) (w : Wires) (endpointId : EndpointId) (cost : Cost)
    (now : Instant) : LsDb × Wires :=
  let key : LsaKey := ⟨db.selfId, endpointId⟩
  match db.db.get key with
  | some record =>
    match record.lsa.body with
    | .endpoint body =>
      if body.cost = cost then (db, w)
      else
        let lsa := { record.lsa with
          seq := record.lsa.seq + 1, body := .endpoint { body with cost := cost } }
        let r := ({ db with db := db.db.insert key ⟨lsa, now⟩ }).floodAllNeighbors w lsa none
        (r.1.requestRebuild now, r.2)
    | .router _ => (db, w)
  | none => (db, w)

/-- Register a local listener and advertise what the route table asks for. A new
advertisement always starts at sequence number zero. -/
def addEndpoint (db : LsDb) (w : Wires) (request : RegistrationRequest) (now : Instant) :
    LsDb × Wires × Bool :=
  match db.routes.addEndpoint request.endpointId request.endpointInfo request.sender with
  | .ok (routes, effect) =>
    let db := { db with routes := routes }
    match effect with
    | .addLsa endpointId info =>
      let key : LsaKey := ⟨db.selfId, endpointId⟩
      let lsa : Lsa := ⟨key, 0, false, .endpoint info⟩
      let r := db.floodAllNeighbors w lsa (some 0)
      ({ r.1 with db := r.1.db.insert key ⟨lsa, now⟩ }, r.2, true)
    | .updateLsa endpointId cost =>
      let r := db.updateEndpointCost w endpointId cost now
      (r.1, r.2, true)
    | _ => (db.requestRebuild now, w, true)
  | .error _ =>
    (db, w.offerClient request.sender (.failedRegistration request.endpointId ""), false)

/-- Change the cost of a local anycast listener. -/
def setAnycastCost (db : LsDb) (endpointId : EndpointId) (sender : Sender) (cost : Cost) :
    Except SetAnycastCostError (LsDb × SetAnycastCostOutcome) :=
  match db.routes.setAnycastCost endpointId sender cost with
  | .ok (routes, outcome) => .ok ({ db with routes := routes }, outcome)
  | .error e => .error e

/-- Drop the closed listeners of an endpoint and advertise what the route table asks for. -/
def removeEndpoint (db : LsDb) (w : Wires) (endpointId : EndpointId) (now : Instant) :
    LsDb × Wires :=
  let r := db.routes.removeEndpoint w endpointId
  let db := ({ db with routes := r.1 } : LsDb).requestRebuild now
  match r.2 with
  | .updateLsa endpointId cost => db.updateEndpointCost w endpointId cost now
  | .removeLsa endpointId =>
    let key : LsaKey := ⟨db.selfId, endpointId⟩
    match db.db.get key with
    | some record =>
      let lsa := { record.lsa with dead := true, seq := record.lsa.seq + 1 }
      ({ db with db := db.db.erase key }).floodAllNeighbors w lsa none
    | none => (db, w)
  | _ => (db, w)

end LsDb

end Anybus
