import Anybus.Linkstate.Lsa

/-!
# The router's view of a session

Every kind of session registers its peer with the router, hands on what comes off the wire,
takes what the router wants to send, and unregisters the peer in the end.
-/

namespace Anybus

/-- Packets and the bytes in them. -/
structure PacketByteCounts where
  bytes : Nat
  packets : Nat
  deriving DecidableEq, Repr

def PacketByteCounts.record (c : PacketByteCounts) (packet : WirePacket) : PacketByteCounts :=
  ⟨c.bytes + packet.payload.length, c.packets + 1⟩

structure PeerStats where
  tx : PacketByteCounts
  rx : PacketByteCounts
  deriving DecidableEq, Repr

/-- What a session tells its router, or asks of the forwarding table. -/
inductive PeerAction where
  | registerPeer (peerId : NodeId) (connectionId : ConnectionId) (cost : Cost) (realms : RealmList)
  | unRegisterPeer (connectionId : ConnectionId)
  | forwardPacket (packet : WirePacket) (connectionId : ConnectionId)
  | lsaInbound (connectionId : ConnectionId) (lsa : Lsa)
  | lsaAckInbound (connectionId : ConnectionId) (key : LsaKey) (seq : Nat)
  deriving DecidableEq

structure Peer where
  peerId : NodeId
  ourId : NodeId
  connectionId : ConnectionId
  cost : Cost
  realms : RealmList
  stats : PeerStats
  deriving DecidableEq

namespace Peer

def registerPeer (peerId ourId : NodeId) (connectionId : ConnectionId) (cost : Cost)
    (realms : RealmList) : Peer × PeerAction :=
  (⟨peerId, ourId, connectionId, cost, realms, ⟨0, 0⟩, ⟨0, 0⟩⟩,
    .registerPeer peerId connectionId cost realms)

/-- Take a message of the router. -/
def recv (peer : Peer) : NodeMessage → Peer
  | .wirePacket packet => { peer with stats := { peer.stats with tx := peer.stats.tx.record packet } }
  | .lsa _ | .lsaAck _ _ => peer

def unregister (peer : Peer) : PeerAction := .unRegisterPeer peer.connectionId

/-- Hand on a message of the peer. -/
def handleNodeMessage (peer : Peer) : NodeMessage → Peer × PeerAction
  | .wirePacket packet =>
    ({ peer with stats := { peer.stats with rx := peer.stats.rx.record packet } },
      .forwardPacket packet peer.connectionId)
  | .lsa lsa => (peer, .lsaInbound peer.connectionId lsa)
  | .lsaAck key seq => (peer, .lsaAckInbound peer.connectionId key seq)

end Peer

end Anybus
