import Anybus.Core.HashMap
import Anybus.Core.Channel
import Mathlib.Data.Finset.Basic
import Mathlib.Data.Fintype.Basic
import Mathlib.Algebra.Group.Nat.Defs
import Mathlib.Order.Lattice

/-!
# Identifiers, costs, realms and packets

The vocabulary shared by the whole router. Identifiers are 128-bit uuids and are
compared as numbers. A cost is a 16-bit number whose addition saturates, so its
greatest value doubles as infinity.
-/

namespace Anybus

/-- A 128-bit identifier, ordered by its big-endian bytes. -/
abbrev Uuid := Fin (2 ^ 128)

/-- Numerals are identifiers. -/
instance Uuid.neZero : @NeZero Nat Zero.ofOfNat0 (2 ^ 128) := ⟨(Nat.two_pow_pos 128).ne'⟩

/-- The identifier of a node. -/
abbrev NodeId := Uuid

/-- The identifier of an endpoint; every node id is also the id of its `Node` endpoint. -/
abbrev EndpointId := Uuid

/-- The number a session gets from the connection counter of its node. -/
abbrev ConnectionId := Nat

/-- A point on the monotonic clock. -/
abbrev Instant := Nat

/-- A length of time in the unit of `Instant`. -/
abbrev Duration := Nat

/-- A 16-bit link or route cost. -/
@[ext] structure Cost where
  /-- The number itself. -/
  val : Nat
  /-- It fits in 16 bits. -/
  le_max : val ≤ 65535
  deriving DecidableEq, Repr

namespace Cost

/-- The greatest cost, read as infinity by the path computation. -/
def max : Cost := ⟨65535, le_rfl⟩

instance : Zero Cost := ⟨⟨0, Nat.zero_le _⟩⟩

/-- Saturating addition. -/
instance : Add Cost := ⟨fun a b => ⟨min 65535 (a.val + b.val), Nat.min_le_left _ _⟩⟩

instance : LinearOrder Cost := LinearOrder.lift' Cost.val fun _ _ h => Cost.ext h

@[simp] theorem zero_val : (0 : Cost).val = 0 := rfl

@[simp] theorem max_val : max.val = 65535 := rfl

@[simp] theorem add_val (a b : Cost) : (a + b).val = min 65535 (a.val + b.val) := rfl

-- The costs of the links in sample networks.
theorem one_le_max : 1 ≤ 65535 := by decide

theorem two_le_max : 2 ≤ 65535 := by decide

theorem five_le_max : 5 ≤ 65535 := by decide

theorem ten_le_max : 10 ≤ 65535 := by decide

theorem lt_iff {a b : Cost} : a < b ↔ a.val < b.val := Iff.rfl

theorem le_iff {a b : Cost} : a ≤ b ↔ a.val ≤ b.val := Iff.rfl

end Cost

/-- How far a route may be advertised. -/
inductive Realm where
  /-- Only within the current process. -/
  | process
  /-- Between processes of one user on one machine. -/
  | userspace
  /-- Within the local network. -/
  | localNet
  /-- To every connected node. -/
  | global
  deriving DecidableEq, Repr

/-- A set of realms. -/
abbrev RealmList := Finset Realm

/-- The delivery rule of an endpoint. -/
inductive RouteKind where
  | unicast
  | anycast
  | broadcast
  | multicast
  | node
  deriving DecidableEq, Repr

/-- The identity of a listener's channel; clones of a sender share it. -/
abbrev Sender := Nat

/-- The identity of the channel into a peer session. -/
abbrev Tx := Nat

/-- What the routing tables need to know of a registered endpoint. -/
structure EndpointInfo where
  kind : RouteKind
  realm : Realm
  cost : Cost
  deriving DecidableEq, Repr

/-- A client's request to listen on an endpoint. -/
structure RegistrationRequest where
  endpointId : EndpointId
  endpointInfo : EndpointInfo
  sender : Sender
  deriving DecidableEq, Repr

/-- Where a packet is going. -/
inductive Address where
  /-- To whichever listener the tables choose for the endpoint. -/
  | endpoint (endpointId : EndpointId)
  /-- To the listener of the endpoint at one particular node. -/
  | remote (endpointId : EndpointId) (nodeId : NodeId)
  deriving DecidableEq, Repr

/-- The table key an address stands for at a node: away from the target node a
remote address is looked up under the node's own id. -/
def Address.getEndpoint (a : Address) (localNodeId : NodeId) : EndpointId :=
  match a with
  | .endpoint endpointId => endpointId
  | .remote endpointId nodeId => if localNodeId = nodeId then endpointId else nodeId

/-- A message body as the routing layer sees it: an in-process value of some
concrete type, which knows its encoding, or bytes off the wire. -/
inductive Payload where
  | busRider (typeId : Nat) (encoded : List UInt8)
  | bytes (b : List UInt8)
  deriving DecidableEq, Repr

/-- The bytes a payload crosses a link as. -/
def Payload.toBytes : Payload → List UInt8
  | .busRider _ encoded => encoded
  | .bytes b => b

/-- A packet inside a process. -/
structure Packet where
  toAddress : Address
  replyTo : Option Address
  fromNode : NodeId
  payload : Payload
  deriving DecidableEq, Repr

/-- A packet between processes. -/
structure WirePacket where
  toAddress : Address
  replyTo : Option Address
  fromNode : NodeId
  payload : List UInt8
  deriving DecidableEq, Repr

/-- Encode a packet for the wire. -/
def Packet.toWire (p : Packet) : WirePacket := ⟨p.toAddress, p.replyTo, p.fromNode, p.payload.toBytes⟩

/-- Accept a packet from the wire; its payload stays encoded. -/
def WirePacket.toPacket (p : WirePacket) : Packet := ⟨p.toAddress, p.replyTo, p.fromNode, .bytes p.payload⟩

/-- What a listener finds in its channel. -/
inductive ClientMessage where
  | message (packet : Packet)
  | failedRegistration (endpointId : EndpointId) (reason : String)
  | successfulRegistration (endpointId : EndpointId)
  | shutdown
  deriving DecidableEq, Repr

/-- Why a client does not get a receiver, or a receiver does not get a message. -/
inductive ReceiveError where
  | connectionClosed
  | registrationFailed (reason : String)
  | deserializationError (payload : Payload)
  | shutdown
  | rpcNoReplyTo
  deriving DecidableEq, Repr

end Anybus
