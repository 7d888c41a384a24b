import Anybus.Db.Step

/-!
# The router

The router owns the link state database and publishes the forwarding table. It waits
for a message, the end of its channel or its timer, handles what woke it up, and goes
back to waiting, in most cases after a new table was built.
-/

namespace Anybus

/-- The identity of the channel a client waits on for an answer. -/
abbrev Reply := Nat

/-- The messages of clients and peer sessions to the router. -/
inductive RouterMsg where
  | registerEndpoint (request : RegistrationRequest)
  | deadLink (endpointId : EndpointId)
  | registerPeer (peerId : NodeId) (connectionId : ConnectionId) (peerTx : Tx) (cost : Cost)
      (realms : RealmList)
  | unRegisterPeer (connectionId : ConnectionId)
  | lsaInbound (sender : ConnectionId) (lsa : Lsa)
  | lsaAckInbound (sender : ConnectionId) (key : LsaKey) (seq : Nat)
  | setAnycastCost (endpointId : EndpointId) (sender : Sender) (cost : Cost) (reply : Reply)
  | shutdown
  deriving DecidableEq

/-- The states of the router's main loop. -/
inductive RouterState where
  | start
  | listen
  | handleBrokerMsg (msg : RouterMsg)
  | registerEndpoint (request : RegistrationRequest)
  | routeChange (notify : Option RegistrationRequest)
  | tick
  | shutdown
  deriving DecidableEq

/-- Whether leaving a state publishes a table. -/
def RouterState.publishes : RouterState → Bool
  | .routeChange _ => true
  | _ => false

/-- What ends a wait. -/
inductive Wake where
  | message (msg : RouterMsg)
  | channelClosed
  | timer
  deriving DecidableEq

/-- The router: its database, the table it has published, and the answers it gave. -/
structure Router where
  lsdb : LsDb
  fib : ForwardingTable
  replies : List (Reply × Option SetAnycastCostError)

namespace Router

/-- A fresh router publishes an empty table. -/
def new (nodeId : NodeId) (now : Instant) : Router := ⟨LsDb.new nodeId now, .new nodeId, []⟩

/-- Answer a client: no error means done. -/
def answer (router : Router) (reply : Reply) (result : Option SetAnycastCostError) : Router :=
  { router with replies := router.replies ++ [(reply, result)] }

/-- Handle one message. -/
def handleBrokerMsg (router : Router) (w : Wires) (now : Instant) :
    RouterMsg → Option (RouterState × Router × Wires)
  | .registerEndpoint request => some (.registerEndpoint request, router, w)
  | .deadLink endpointId =>
    let r := router.lsdb.removeEndpoint w endpointId now
    some (.routeChange none, { router with lsdb := r.1 }, r.2)
  | .registerPeer peerId connectionId peerTx cost realms =>
    let r := router.lsdb.addPeer w ⟨peerTx, peerId, connectionId, realms, cost⟩ now
    some (.routeChange none, { router with lsdb := r.1 }, r.2)
  | .unRegisterPeer connectionId =>
    (router.lsdb.removePeer w connectionId now).map fun r =>
      (.routeChange none, { router with lsdb := r.1 }, r.2)
  | .lsaInbound sender lsa =>
    (router.lsdb.handleLsa w lsa sender now).map fun r =>
      (.routeChange none, { router with lsdb := r.1 }, r.2)
  | .lsaAckInbound sender key seq =>
    some (.listen, { router with lsdb := router.lsdb.handleAck sender key seq }, w)
  | .setAnycastCost endpointId sender cost reply =>
    match router.lsdb.setAnycastCost endpointId sender cost with
    | .ok (lsdb, .unchanged) => some (.listen, { router with lsdb := lsdb }.answer reply none, w)
    | .ok (lsdb, .changed _ _ advertise) =>
      let r := match advertise with
        | some minCost => lsdb.updateEndpointCost w endpointId minCost now
        | none => (lsdb, w)
      some (.routeChange none, { router with lsdb := r.1 }.answer reply none, r.2)
    | .error e => some (.listen, router.answer reply (some e), w)
  | .shutdown => some (.shutdown, router, w)

/-- One turn of the main loop. The outer `none` is a panic, the inner one the end. -/
def next (router : Router) (w : Wires) (now : Instant) (wake : Wake) :
    RouterState → Option (Option RouterState × Router × Wires)
  | .start => some (some .listen, router, w)
  | .listen =>
    match wake with
    | .message msg => some (some (.handleBrokerMsg msg), router, w)
    | .channelClosed => some (some .shutdown, router, w)
    | .timer => some (some .tick, router, w)
  | .handleBrokerMsg msg =>
    (router.handleBrokerMsg w now msg).map fun r => (some r.1, r.2.1, r.2.2)
  | .registerEndpoint request =>
    let r := router.lsdb.addEndpoint w request now
    let router := { router with lsdb := r.1 }
    if r.2.2 then some (some (.routeChange (some request)), router, r.2.1)
    else some (some .listen, router, r.2.1)
  | .shutdown =>
    let r := router.lsdb.shutdown w now
    some (none, { router with lsdb := r.1 }, r.2)
  | .routeChange notify =>
    router.lsdb.buildFib.map fun r =>
      (some .listen, { router with lsdb := r.1, fib := r.2 }, match notify with
        | some request => w.offerClient request.sender (.successfulRegistration request.endpointId)
        | none => w)
  | .tick =>
    (router.lsdb.tick w now).map fun r =>
      (some (if r.2.2 then .routeChange none else .listen), { router with lsdb := r.1 }, r.2.1)

/-- The states of a router's run, with whether it has published a table, when every
message satisfies a side condition on the router it meets. Channels and clock are the
environment's, and maps may be rehashed at any time. -/
inductive Reaches (allowed : Router → RouterMsg → Prop) (nodeId : NodeId) :
    RouterState → Router → Bool → Prop where
  | new (now : Instant) : Reaches allowed nodeId .start (.new nodeId now) false
  | rehash {st : RouterState} {router : Router} {published : Bool} {lsdb : LsDb} :
      Reaches allowed nodeId st router published → LsDb.Rehash router.lsdb lsdb →
      Reaches allowed nodeId st { router with lsdb := lsdb } published
  | next {st st' : RouterState} {router router' : Router} {published : Bool} {w w' : Wires}
      (now : Instant) (wake : Wake) : Reaches allowed nodeId st router published →
      (∀ msg, st = .handleBrokerMsg msg → allowed router msg) →
      router.next w now wake st = some (some st', router', w') →
      Reaches allowed nodeId st' router' (published || st.publishes)

end Router

end Anybus
