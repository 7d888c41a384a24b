import Anybus.Routing.Basic

/-!
# Link state advertisements and links

An LSA is a versioned record of one key: the adjacency list of a router or the
description of one endpoint. A link filters what it carries by its realms and
queues it for the peer session without waiting.
-/

namespace Anybus

/-- The identity of an LSA: who issued it and which record it is. A router record
uses the id of its origin, an endpoint record the id of the endpoint. -/
structure LsaKey where
  origin : NodeId
  endpointId : Uuid
  deriving DecidableEq, Repr

/-- One end of a live link as its node advertises it. -/
structure Adjacency where
  connectionId : ConnectionId
  peerId : NodeId
  cost : Cost
  realms : RealmList
  deriving DecidableEq

/-- The content of an LSA. -/
inductive LsaBody where
  | router (adjacencies : List Adjacency)
  | endpoint (info : EndpointInfo)
  deriving DecidableEq

/-- One version of a record; a dead version withdraws it. -/
structure Lsa where
  key : LsaKey
  seq : Nat
  dead : Bool
  body : LsaBody
  deriving DecidableEq

/-- A stored LSA and when it was stored. -/
structure LsaRecord where
  lsa : Lsa
  updatedAt : Instant
  deriving DecidableEq

/-- A message between the routers of two neighbours. -/
inductive NodeMessage where
  | wirePacket (packet : WirePacket)
  | lsa (lsa : Lsa)
  | lsaAck (key : LsaKey) (seq : Nat)
  deriving DecidableEq

/-- One end of a session with a neighbour. -/
structure Link where
  tx : Tx
  peerId : NodeId
  connectionId : ConnectionId
  realms : RealmList
  cost : Cost
  deriving DecidableEq

/-- The channels a router writes to, and the trace of what it hands to its links. -/
structure Wires where
  /-- The bounded queue into each peer session. -/
  node : Tx → Chan NodeMessage
  /-- The bounded queue of each local listener. -/
  client : Sender → Chan ClientMessage
  /-- Every LSA passed to `Link.sendLsa` with the link's connection, oldest first. -/
  handed : List (ConnectionId × Lsa)

/-- Open channels of one capacity with nothing in them. -/
def Wires.idle (capacity : Nat) : Wires :=
  ⟨fun _ => .channel capacity, fun _ => .channel capacity, []⟩

/-- Queue a message for a listener and ignore the outcome. -/
def Wires.offerClient (w : Wires) (s : Sender) (m : ClientMessage) : Wires :=
  { w with client := Function.update w.client s ((w.client s).offer m) }

/-- Why a link did not take a message. -/
inductive LinkError where
  | trySendError (e : TrySendError)
  | realmMismatch
  deriving DecidableEq, Repr

namespace Link

/-- Queue a message for the peer without waiting. -/
def trySend (link : Link) (w : Wires) (m : NodeMessage) : Except LinkError Wires :=
  match (w.node link.tx).trySend m with
  | .ok c => .ok { w with node := Function.update w.node link.tx c }
  | .error e => .error (.trySendError e)

/-- The part of an LSA a link may carry: the adjacencies that share a realm with it,
or the endpoint if its realm is one of the link's. -/
def permits (link : Link) (lsa : Lsa) : Option Lsa :=
  match lsa.body with
  | .router adjacencies =>
    let kept := (adjacencies.map fun adj => { adj with realms := adj.realms ∩ link.realms }).filter
      fun adj => adj.realms ≠ ∅
    if kept.isEmpty then none else some { lsa with body := .router kept }
  | .endpoint info => if info.realm ∈ link.realms then some lsa else none

/-- Hand an LSA to the link: filter it, then queue what is left. -/
def sendLsa (link : Link) (w : Wires) (lsa : Lsa) : Wires × Except LinkError Unit :=
  let w := { w with handed := w.handed ++ [(link.connectionId, lsa)] }
  match link.permits lsa with
  | none => (w, .error .realmMismatch)
  | some lsa =>
    match link.trySend w (.lsa lsa) with
    | .ok w => (w, .ok ())
    | .error e => (w, .error e)

/-- Queue the acknowledgement of an LSA. -/
def sendLsaAck (link : Link) (w : Wires) (key : LsaKey) (seq : Nat) : Except LinkError Wires :=
  link.trySend w (.lsaAck key seq)

end Link

/-- A cost to reach a node, as queued by the path computation. -/
structure Entry where
  cost : Cost
  node : NodeId
  deriving DecidableEq, Repr

/-- Lower cost wins; at equal cost the lower node id wins. -/
def Entry.better (a b : Entry) : Bool :=
  decide (a.cost < b.cost) || (decide (a.cost = b.cost) && decide (a.node < b.node))

end Anybus
